import Quackhole.Web.Workers

/-!
# Which reply a call hears

The chunks a call of `roundTrip` has not acted on yet are in its own hands, in
the buffer, or still owed by the bridge, and hearing them in that order comes to
what its request came to.  A step keeps this as long as the bridge publishes
nothing of an abandoned request while a later call is running.
-/

namespace Quackhole.Web

open Quackhole.Word
open Quackhole.Transition

/-- How the call with this number ends, if it hears everything. -/
def Config.expected (config : Config) (request : Nat) : Option Outcome :=
  ((config.replies request).produced config.limit config.rangeError).map Reply.outcome

/-- The call ran out of time, or ended with what its own request came to. -/
def Config.Genuine (config : Config) (request : Nat) (outcome : Outcome) : Prop :=
  outcome = .deadline ∨ config.expected request = some outcome

/-- The condition on a step: where it is the one in which the bridge publishes a chunk, no
call is running but the one that made its request. -/
def Timely (label : Label) (world : World) : Prop :=
  label = .bridge → ∀ job, world.bridge = .publishing job → world.shim ≠ .outside →
    job.request = world.results.length

/-- A call that returns, or throws an error of the bridge, does so with what the
bridge answered its own request with. -/
def Config.OwnReply (config : Config) (request : Nat) (outcome : Outcome) : Prop :=
  match outcome with
  | .returned _ _ _ => config.expected request = some outcome
  | .bridgeError _ => config.expected request = some outcome
  | _ => True

theorem Config.Genuine.ownReply {config : Config} {request : Nat} {outcome : Outcome}
    (genuine : config.Genuine request outcome) : config.OwnReply request outcome := by
  rcases genuine with rfl | own
  · trivial
  · cases outcome with
    | returned status headers body => exact own
    | bridgeError message => exact own
    | unparsable | noMetadata | deadline => trivial

/-! ## The chunks that have not been heard -/

/-- The chunk the shim has taken out of the buffer. -/
def ShimPhase.held : ShimPhase → List Chunk
  | .reacting payload => [payload]
  | _ => []

/-- The handler that is writing. -/
def BridgePhase.job : BridgePhase → Option Job
  | .parked => none
  | .polling job => some job
  | .filling job _ => some job
  | .storeLen job => some job
  | .storeFlags job => some job
  | .publishing job => some job

/-- The chunk the buffer holds, if the shim has not released it. -/
def World.buffer (world : World) : Chunk :=
  ⟨world.data.take world.len, world.flags, world.state⟩

def World.buffered (world : World) : List Chunk :=
  if world.state = .idle then [] else [world.buffer]

/-- Requests the bridge has not begun to answer. -/
def World.waiting (world : World) : List Nat :=
  world.inbox ++ world.pending

/-- What the bridge will still write for a request. -/
def World.owed (config : Config) (world : World) (request : Nat) : List Chunk :=
  if request ∈ world.waiting then
    sendable config.limit config.rangeError ((config.replies request).chunks config.limit)
  else
    match world.bridge.job with
    | none => []
    | some job =>
        if job.request = request then
          sendable config.limit config.rangeError (job.chunk :: job.rest)
        else []

/-- What the running call will still hear. -/
def World.unheard (config : Config) (world : World) : List Chunk :=
  world.shim.held ++ world.buffered ++ world.owed config world.results.length

/-! ## The invariant -/

/-- The call has posted its request. -/
def ShimPhase.running : ShimPhase → Bool
  | .outside => false
  | .posting => false
  | _ => true

/-- How many requests have been posted. -/
def World.posted (world : World) : Nat :=
  world.results.length + world.shim.running.toNat

/-- The requests the bridge knows of. -/
def World.requests (world : World) : List Nat :=
  world.waiting ++ (world.bridge.job.map Job.request).toList

/-- What the handler that is writing has done to the buffer. -/
def World.Fills (config : Config) (world : World) : Prop :=
  match world.bridge with
  | .parked => True
  | .polling _ => True
  | .filling job count => world.state = .idle ∧ job.chunk.bytes.length ≤ config.limit ∧
      count ≤ job.chunk.bytes.length ∧
      world.data.take count = job.chunk.bytes.take count
  | .storeLen job => world.state = .idle ∧ job.chunk.bytes.length ≤ config.limit ∧
      world.data.take job.chunk.bytes.length = job.chunk.bytes
  | .storeFlags job => world.state = .idle ∧ job.chunk.bytes.length ≤ config.limit ∧
      world.data.take world.len = job.chunk.bytes
  | .publishing job => world.state = .idle ∧ job.chunk.bytes.length ≤ config.limit ∧
      world.data.take world.len = job.chunk.bytes ∧ world.flags = job.chunk.flags

/-- What the shim has read of the buffer. -/
def World.Reads (world : World) : Prop :=
  match world.shim with
  | .loadState => world.state ≠ .idle
  | .loadFlags state => world.state ≠ .idle ∧ state = world.state
  | .loadLen state flags => world.state ≠ .idle ∧ state = world.state ∧ flags = world.flags
  | .slicing state flags len copied => world.state ≠ .idle ∧ state = world.state ∧
      flags = world.flags ∧ len = world.len ∧ copied.length ≤ min len world.data.length ∧
      copied = world.data.take copied.length
  | .releasing payload => world.state ≠ .idle ∧ payload = world.buffer
  | _ => True

/-- The invariant of the handoff. -/
structure World.Sound (config : Config) (world : World) : Prop where
  distinct : world.requests.Nodup
  known : ∀ request ∈ world.requests, request < world.posted
  signalled : ∀ job, world.bridge.job = some job →
    ∀ chunk ∈ job.chunk :: job.rest, chunk.state ≠ .idle
  size : world.data.length = config.limit
  fills : world.Fills config
  reads : world.Reads
  fresh : world.shim = .posting → world.state = .idle ∧ world.heard = .nothing
  converses : world.shim.running = true →
    world.heard.ComesTo (world.unheard config) (config.expected world.results.length)
  genuine : ∀ request outcome, world.results[request]? = some outcome →
    config.Genuine request outcome

namespace World

variable {config : Config} {world : World}

theorem sound_initial (config : Config) : (initial config).Sound config where
  distinct := List.nodup_nil
  known _ impossible := by cases impossible
  signalled _ impossible := by cases impossible
  size := List.length_replicate
  fills := trivial
  reads := trivial
  fresh impossible := by cases impossible
  converses impossible := by cases impossible
  genuine _ _ impossible := by cases impossible

/-! ## The steps of the shim -/

/-- The shim moves inside its loop. -/
theorem Sound.shimTo {shim before : ShimPhase} (sound : world.Sound config)
    (here : world.shim = before) (running : before.running = true) (stays : shim.running = true)
    (held : shim.held = before.held) (reads : (world.shimTo shim).Reads) :
    (world.shimTo shim).Sound config where
  distinct := sound.distinct
  known := by
    have same : (world.shimTo shim).posted = world.posted := by
      simp [World.posted, World.shimTo, here, running, stays]
    rw [same]
    exact sound.known
  signalled := sound.signalled
  size := sound.size
  fills := sound.fills
  reads := reads
  fresh posting := by
    rw [show shim = .posting from posting] at stays
    cases stays
  converses _ := by
    have same : (world.shimTo shim).unheard config = world.unheard config := by
      rw [World.unheard, World.unheard, here, ← held]
      rfl
    rw [same]
    exact sound.converses (here ▸ running)
  genuine := sound.genuine

/-- A call begins: it drops what was left in the buffer. -/
theorem Sound.calls (sound : world.Sound config) (here : world.shim = .outside) :
    { world with state := .idle, shim := .posting, heard := .nothing : World }.Sound config where
  distinct := sound.distinct
  known := by
    have known := sound.known
    rw [World.posted, here] at known
    exact known
  signalled := sound.signalled
  size := sound.size
  fills := by
    have fills := sound.fills
    unfold World.Fills at fills ⊢
    cases bridge : world.bridge <;> simp_all
  reads := trivial
  fresh _ := ⟨rfl, rfl⟩
  converses impossible := by cases impossible
  genuine := sound.genuine

/-- What holds of every result holds of one more. -/
theorem forall_results_ends {property : Nat → Outcome → Prop} {outcome : Outcome}
    (earlier : ∀ request outcome, world.results[request]? = some outcome →
      property request outcome) (last : property world.results.length outcome) :
    ∀ request other, (world.ends outcome).results[request]? = some other →
      property request other := by
  intro request other found
  rw [World.ends, List.getElem?_append] at found
  split at found
  · exact earlier request other found
  · rename_i late
    obtain ⟨index, rfl⟩ := Nat.exists_eq_add_of_le (Nat.le_of_not_lt late)
    cases index with
    | zero =>
        rw [Nat.add_zero, Nat.sub_self] at found
        cases found
        exact last
    | succ index => simp at found

/-- The call ends. -/
theorem Sound.ends {outcome : Outcome} (sound : world.Sound config)
    (running : world.shim.running = true)
    (genuine : config.Genuine world.results.length outcome) : (world.ends outcome).Sound config where
  distinct := sound.distinct
  known := by
    have same : (world.ends outcome).posted = world.posted := by
      rw [World.posted, World.posted, running]
      simp [World.ends, ShimPhase.running]
    rw [same]
    exact sound.known
  signalled := sound.signalled
  size := sound.size
  fills := sound.fills
  reads := trivial
  fresh impossible := by cases impossible
  converses impossible := by cases impossible
  genuine := forall_results_ends sound.genuine genuine

/-- The request is posted: all of its chunks are owed. -/
theorem Sound.posts (sound : world.Sound config) (here : world.shim = .posting) :
    { world with inbox := world.inbox ++ [world.results.length], shim := .polling : World }.Sound
      config := by
  obtain ⟨idle, nothing⟩ := sound.fresh here
  have known := sound.known
  rw [World.posted, here] at known
  have reordered : ({ world with
      inbox := world.inbox ++ [world.results.length], shim := .polling } : World).requests.Perm
        (world.results.length :: world.requests) := by
    rw [List.perm_iff_count]
    intro request
    simp only [World.requests, World.waiting, List.count_append, List.count_cons, List.count_nil]
    omega
  constructor
  · rw [reordered.nodup_iff, List.nodup_cons]
    exact ⟨fun inside => Nat.lt_irrefl _ (known _ inside), sound.distinct⟩
  · intro request inside
    rcases List.mem_cons.mp (reordered.mem_iff.mp inside) with rfl | earlier
    · exact Nat.lt_succ_self _
    · exact (known request earlier).trans (Nat.lt_succ_self _)
  · exact sound.signalled
  · exact sound.size
  · exact sound.fills
  · trivial
  · intro impossible
    cases impossible
  · intro _
    have posted : world.results.length ∈ world.inbox ++ [world.results.length] ++ world.pending :=
      by simp
    have unheard : ({ world with
        inbox := world.inbox ++ [world.results.length], shim := .polling } : World).unheard config =
          sendable config.limit config.rangeError
            ((config.replies world.results.length).chunks config.limit) := by
      simp only [World.unheard, ShimPhase.held, World.buffered, idle, if_true, World.owed,
        World.waiting, List.nil_append]
      exact if_pos posted
    rw [unheard, nothing]
    exact comesTo_sendable config.positive _ _
  · exact sound.genuine

/-- The buffer is released: its chunk is now in the hands of the shim. -/
theorem Sound.releases {payload : Chunk} (sound : world.Sound config)
    (here : world.shim = .releasing payload) :
    { world with state := .idle, shim := .reacting payload : World }.Sound config := by
  have reads := sound.reads
  have running : world.shim.running = true := by rw [here]; rfl
  have converses := sound.converses running
  rw [World.Reads, here] at reads
  obtain ⟨busy, rfl⟩ := reads
  constructor
  · exact sound.distinct
  · have known := sound.known
    rw [World.posted, running] at known
    exact known
  · exact sound.signalled
  · exact sound.size
  · have fills := sound.fills
    unfold World.Fills at fills ⊢
    cases bridge : world.bridge <;> simp_all
  · trivial
  · intro impossible
    cases impossible
  · intro _
    have same : ({ world with state := .idle, shim := .reacting world.buffer } : World).unheard
        config = world.unheard config := by
      simp only [World.unheard, ShimPhase.held, here, World.buffered, if_true, if_neg busy]
      rfl
    rw [same]
    exact converses
  · exact sound.genuine

/-- The shim has acted on a chunk and goes on. -/
theorem Sound.goesOn {payload : Chunk} {heard : Heard} (sound : world.Sound config)
    (here : world.shim = .reacting payload) (reaction : world.heard.react payload = .inl heard) :
    { world with heard, shim := .polling : World }.Sound config := by
  have running : world.shim.running = true := by rw [here]; rfl
  have converses := sound.converses running
  constructor
  · exact sound.distinct
  · have known := sound.known
    rw [World.posted, running] at known
    exact known
  · exact sound.signalled
  · exact sound.size
  · exact sound.fills
  · trivial
  · intro impossible
    cases impossible
  · intro _
    simp only [World.unheard, here, ShimPhase.held, List.cons_append, List.nil_append,
      Heard.ComesTo, reaction] at converses
    exact converses
  · exact sound.genuine

/-- What the running call concludes is what its request came to, and nothing is
left to hear. -/
theorem Sound.concludes {payload : Chunk} {outcome : Outcome} (sound : world.Sound config)
    (here : world.shim = .reacting payload) (reaction : world.heard.react payload = .inr outcome) :
    config.expected world.results.length = some outcome ∧
      world.buffered ++ world.owed config world.results.length = [] := by
  have converses := sound.converses (by rw [here]; rfl)
  simp only [World.unheard, here, ShimPhase.held, List.cons_append, List.nil_append,
    Heard.ComesTo, reaction] at converses
  exact converses

/-! ## The steps of the bridge -/

/-- While the buffer is free, the shim has read nothing of it. -/
theorem Sound.reads_of_idle {world' : World} (sound : world.Sound config)
    (idle : world.state = .idle) (same : world'.shim = world.shim) : world'.Reads := by
  have reads := sound.reads
  unfold World.Reads at reads ⊢
  rw [same]
  cases here : world.shim <;> simp_all

/-- The handler that is writing moves on while the buffer is free. -/
theorem Sound.writes {len flags : Nat} {data : Bytes} {bridge : BridgePhase}
    (sound : world.Sound config) (idle : world.state = .idle) (job : bridge.job = world.bridge.job)
    (size : data.length = config.limit)
    (fills : ({ world with len, flags, data, bridge } : World).Fills config) :
    ({ world with len, flags, data, bridge } : World).Sound config where
  distinct := by
    have same : ({ world with len, flags, data, bridge } : World).requests = world.requests := by
      rw [World.requests, World.requests, ← job]
      rfl
    rw [same]
    exact sound.distinct
  known := by
    have same : ({ world with len, flags, data, bridge } : World).requests = world.requests := by
      rw [World.requests, World.requests, ← job]
      rfl
    rw [same]
    exact sound.known
  signalled other writing := sound.signalled other (job.symm.trans writing)
  size := size
  fills := fills
  reads := sound.reads_of_idle idle rfl
  fresh := sound.fresh
  converses := by
    have same : ({ world with len, flags, data, bridge } : World).unheard config =
        world.unheard config := by
      simp only [World.unheard, World.buffered, idle, World.owed, job]
      rfl
    rw [same]
    exact sound.converses
  genuine := sound.genuine

theorem nodup_of_count_le {first second : List Nat}
    (fewer : ∀ request, first.count request ≤ second.count request) (distinct : second.Nodup) :
    first.Nodup := by
  rw [List.nodup_iff_count] at distinct ⊢
  exact fun request => (fewer request).trans (distinct request)

theorem mem_of_count_le {first second : List Nat} {request : Nat}
    (fewer : ∀ request, first.count request ≤ second.count request) (inside : request ∈ first) :
    request ∈ second := by
  rw [← List.count_pos_iff] at inside ⊢
  exact inside.trans_le (fewer request)

/-- The thread of the bridge changes hands: it knows of the same requests and owes
the running call the same chunks. -/
theorem Sound.turns {inbox pending : List Nat} {bridge : BridgePhase}
    (sound : world.Sound config)
    (fewer : ∀ request,
      ({ world with inbox, pending, bridge } : World).requests.count request ≤
        world.requests.count request)
    (signalled : ∀ job, bridge.job = some job →
      ∀ chunk ∈ job.chunk :: job.rest, chunk.state ≠ .idle)
    (fills : ({ world with inbox, pending, bridge } : World).Fills config)
    (owed : ({ world with inbox, pending, bridge } : World).owed config world.results.length =
      world.owed config world.results.length) :
    ({ world with inbox, pending, bridge } : World).Sound config where
  distinct := nodup_of_count_le fewer sound.distinct
  known request inside := sound.known request (mem_of_count_le fewer inside)
  signalled := signalled
  size := sound.size
  fills := fills
  reads := sound.reads
  fresh := sound.fresh
  converses := by
    have same : ({ world with inbox, pending, bridge } : World).unheard config =
        world.unheard config := by
      rw [World.unheard, World.unheard, ← owed]
      rfl
    rw [same]
    exact sound.converses
  genuine := sound.genuine

theorem owed_of_waiting {request : Nat} (waiting : request ∈ world.waiting) :
    world.owed config request =
      sendable config.limit config.rangeError ((config.replies request).chunks config.limit) :=
  if_pos waiting

theorem owed_of_parked {request : Nat} (begun : request ∉ world.waiting)
    (parked : world.bridge = .parked) : world.owed config request = [] := by
  rw [World.owed, if_neg begun, parked]
  rfl

theorem owed_of_job {request : Nat} {job : Job} (begun : request ∉ world.waiting)
    (writing : world.bridge.job = some job) :
    world.owed config request =
      if job.request = request then sendable config.limit config.rangeError (job.chunk :: job.rest)
      else [] := by
  rw [World.owed, if_neg begun, writing]

/-- A request that is being answered is not waiting. -/
theorem not_waiting_of_job (job : Job) (distinct : world.requests.Nodup)
    (writing : world.bridge.job = some job) : job.request ∉ world.waiting := by
  intro waiting
  rw [World.requests, writing, Option.map_some, Option.toList_some, List.nodup_append] at distinct
  exact distinct.2.2 _ waiting _ List.mem_cons_self rfl

theorem Sound.delivers {request : Nat} {inbox : List Nat} (sound : world.Sound config)
    (parked : world.bridge = .parked) (posted : world.inbox = request :: inbox) :
    ({ world with inbox, pending := world.pending ++ [request] } : World).Sound config := by
  have same : ∀ other,
      other ∈ inbox ++ (world.pending ++ [request]) ↔ other ∈ world.waiting := by
    intro other
    rw [World.waiting, posted]
    simp only [List.mem_append, List.mem_cons, List.not_mem_nil, or_false]
    tauto
  apply sound.turns
  · intro other
    simp only [World.requests, World.waiting, posted, parked, BridgePhase.job, Option.map_none,
      Option.toList_none, List.append_nil, List.count_append, List.count_cons, List.count_nil]
    omega
  · exact sound.signalled
  · exact sound.fills
  · by_cases waiting : world.results.length ∈ world.waiting
    · rw [owed_of_waiting waiting]
      exact owed_of_waiting ((same _).mpr waiting)
    · rw [owed_of_parked waiting parked]
      exact owed_of_parked (fun moved => waiting ((same _).mp moved)) parked

/-- The calls of `writeChunk` for a reply are never none. -/
theorem exists_chunks (limit : Nat) (reply : Reply) :
    ∃ chunk rest, reply.chunks limit = chunk :: rest := by
  cases reply with
  | response head body => exact ⟨_, _, rfl⟩
  | failure message => exact ⟨_, _, rfl⟩

theorem signalled_chunksFrom {limit fuel start : Nat} {body : Bytes} :
    ∀ chunk ∈ chunksFrom limit body fuel start, chunk.state ≠ .idle := by
  induction fuel generalizing start with
  | zero => exact fun _ impossible => by cases impossible
  | succ fuel ih =>
      intro chunk member
      rw [chunksFrom] at member
      split at member
      · rcases List.mem_cons.mp member with rfl | later
        · exact Signal.noConfusion
        · exact ih chunk later
      · cases member

/-- No call of `writeChunk` stores `IDLE`. -/
theorem signalled_chunks (limit : Nat) (reply : Reply) :
    ∀ chunk ∈ reply.chunks limit, chunk.state ≠ .idle := by
  intro chunk member
  cases reply with
  | failure message =>
      rw [List.mem_singleton.mp member]
      exact Signal.noConfusion
  | response head body =>
      rcases List.mem_cons.mp member with rfl | piece
      · exact Signal.noConfusion
      · unfold bodyChunks at piece
        split at piece
        · rw [List.mem_singleton.mp piece]
          exact Signal.noConfusion
        · exact signalled_chunksFrom chunk piece

theorem Sound.settles {request : Nat} (sound : world.Sound config)
    (parked : world.bridge = .parked) (waiting : request ∈ world.pending) :
    ({ world with
        pending := world.pending.erase request
        bridge := writeChunks request ((config.replies request).chunks config.limit) } :
      World).Sound config := by
  obtain ⟨chunk, rest, calls⟩ := exists_chunks config.limit (config.replies request)
  have signalled := signalled_chunks config.limit (config.replies request)
  rw [calls] at signalled ⊢
  have present : 0 < world.pending.count request := List.count_pos_iff.mpr waiting
  have fewer : ∀ other, ({ world with
      pending := world.pending.erase request
      bridge := writeChunks request (chunk :: rest) } : World).requests.count other ≤
        world.requests.count other := by
    intro other
    simp only [World.requests, World.waiting, parked, writeChunks, BridgePhase.job,
      Option.map_none, Option.map_some, Option.toList_none, Option.toList_some, List.append_nil,
      List.count_append, List.count_cons, List.count_nil, List.count_erase]
    by_cases equal : request = other
    · subst equal
      simp only [beq_self_eq_true, if_true]
      omega
    · simp only [beq_iff_eq, equal, if_false]
      omega
  apply sound.turns fewer
  · rintro _ ⟨rfl⟩
    exact signalled
  · trivial
  · have begun : request ∉ world.inbox ++ world.pending.erase request :=
      not_waiting_of_job ⟨request, chunk, rest⟩ (nodup_of_count_le fewer sound.distinct) rfl
    by_cases own : world.results.length = request
    · rw [own, owed_of_waiting (List.mem_append_right _ waiting), calls]
      exact (owed_of_job begun rfl).trans (if_pos rfl)
    · have other : request ≠ world.results.length := fun equal => own equal.symm
      have same : world.results.length ∈ world.inbox ++ world.pending.erase request ↔
          world.results.length ∈ world.waiting := by
        simp only [World.waiting, List.mem_append, List.mem_erase_of_ne own]
      by_cases early : world.results.length ∈ world.waiting
      · rw [owed_of_waiting early]
        exact owed_of_waiting (same.mpr early)
      · rw [owed_of_parked early parked]
        exact (owed_of_job (fun late => early (same.mp late)) rfl).trans (if_neg other)

/-- A chunk that is too long is replaced by what the handler makes of the error. -/
theorem Sound.raises {job : Job} (sound : world.Sound config)
    (here : world.bridge = .polling job) (long : ¬ job.chunk.bytes.length ≤ config.limit) :
    (world.bridgeTo (afterRangeError config job)).Sound config := by
  have writing : world.bridge.job = some job := by rw [here]; rfl
  apply sound.turns
  · intro request
    apply List.Sublist.count_le
    apply List.Sublist.append_left
    rw [writing, afterRangeError]
    split
    · exact List.nil_sublist _
    · exact List.Sublist.refl _
  · rw [afterRangeError]
    split
    · rintro _ impossible
      cases impossible
    · rintro _ ⟨rfl⟩ chunk member
      rw [List.mem_singleton.mp member]
      exact Signal.noConfusion
  · by_cases failed : job.chunk.state = .error
    · simp only [World.Fills, afterRangeError, if_pos failed]
    · simp only [World.Fills, afterRangeError, if_neg failed]
  · by_cases early : world.results.length ∈ world.waiting
    · rw [owed_of_waiting early]
      exact owed_of_waiting early
    · rw [owed_of_job early writing, sendable, if_neg long, afterRangeError]
      by_cases failed : job.chunk.state = .error
      · simp only [if_pos failed, ite_self]
        exact owed_of_parked early rfl
      · simp only [if_neg failed]
        refine Eq.trans (owed_of_job early rfl) ?_
        by_cases own : job.request = world.results.length
        · simp only [if_pos own, sendable]
          rfl
        · simp only [if_neg own]

/-- One byte more of the chunk is in the data region. -/
theorem take_succ_set {data bytes : Bytes} {count : Nat} {byte : UInt8}
    (written : data.take count = bytes.take count) (present : bytes[count]? = some byte)
    (room : count < data.length) :
    (data.set count byte).take (count + 1) = bytes.take (count + 1) := by
  rw [List.take_add_one, List.take_add_one, List.take_set_of_le (Nat.le_refl count), written,
    List.getElem?_set_self room, present]

/-- The jobs that are left after a call of `writeChunk`. -/
theorem writeChunks_job (request : Nat) (rest : List Chunk) (job : Job)
    (writing : (writeChunks request rest).job = some job) :
    job.request = request ∧ rest = job.chunk :: job.rest := by
  cases rest with
  | nil => cases writing
  | cons chunk rest =>
      cases writing
      exact ⟨rfl, rfl⟩

/-- What is owed once a call of `writeChunk` has returned. -/
theorem owed_of_writeChunks {state : Signal} {request : Nat} {rest : List Chunk} {index : Nat}
    (begun : index ∉ world.waiting) (own : request = index) :
    ({ world with state, bridge := writeChunks request rest } : World).owed config index =
      sendable config.limit config.rangeError rest := by
  cases rest with
  | nil => exact owed_of_parked begun rfl
  | cons chunk rest => exact Eq.trans (owed_of_job begun rfl) (if_pos own)

/-- The chunk is published: it was written in full, and it is the next one the
running call hears. -/
theorem Sound.publishes {job : Job} (sound : world.Sound config)
    (here : world.bridge = .publishing job)
    (timely : world.shim ≠ .outside → job.request = world.results.length) :
    ({ world with state := job.chunk.state, bridge := writeChunks job.request job.rest } :
      World).Sound config := by
  have writing : world.bridge.job = some job := by rw [here]; rfl
  have signalled := sound.signalled job writing
  have fills := sound.fills
  rw [World.Fills, here] at fills
  obtain ⟨idle, fits, written, flagged⟩ := fills
  have fewer : ∀ request,
      ({ world with state := job.chunk.state, bridge := writeChunks job.request job.rest } :
        World).requests.count request ≤ world.requests.count request := by
    intro request
    apply List.Sublist.count_le
    apply List.Sublist.append_left
    rw [writing]
    cases job.rest with
    | nil => exact List.nil_sublist _
    | cons chunk rest => exact List.Sublist.refl _
  constructor
  · exact nodup_of_count_le fewer sound.distinct
  · exact fun request inside => sound.known request (mem_of_count_le fewer inside)
  · intro next continues chunk member
    obtain ⟨_, rest⟩ := writeChunks_job _ _ next continues
    rw [← rest] at member
    exact signalled chunk (List.mem_cons_of_mem _ member)
  · exact sound.size
  · cases rest : job.rest with
    | nil => trivial
    | cons chunk rest => trivial
  · exact sound.reads_of_idle idle rfl
  · -- Before its request is posted, no call is owed a chunk.
    intro posting
    have own := timely fun outside => by
      rw [show world.shim = .posting from posting] at outside
      cases outside
    have known := sound.known job.request (by
      rw [World.requests, writing]
      exact List.mem_append_right _ (List.mem_singleton.mpr rfl))
    rw [World.posted, show world.shim = .posting from posting, own] at known
    exact absurd known (Nat.lt_irrefl _)
  · intro running
    have own := timely fun outside => by
      rw [show world.shim.running = ShimPhase.running .outside by rw [outside]] at running
      cases running
    have begun : world.results.length ∉ world.waiting := own ▸ not_waiting_of_job job sound.distinct writing
    have converses := sound.converses running
    have published : (⟨world.data.take world.len, world.flags, job.chunk.state⟩ : Chunk) =
        job.chunk := by
      rw [written, flagged]
    have same : ({ world with
        state := job.chunk.state, bridge := writeChunks job.request job.rest } : World).unheard
          config = world.unheard config := by
      rw [World.unheard, World.unheard, owed_of_job begun writing, if_pos own, sendable,
        if_pos fits]
      simp only [World.buffered, World.buffer, idle, if_true,
        if_neg (signalled job.chunk List.mem_cons_self), published, List.append_assoc,
        List.nil_append, List.cons_append]
      rw [owed_of_writeChunks begun own]
    rw [same]
    exact converses
  · exact sound.genuine

/-! ## Every step -/

/-- Inside `data.set`, and once it returns. -/
theorem Sound.fillsOn {job : Job} {count : Nat} {byte : UInt8} (sound : world.Sound config)
    (here : world.bridge = .filling job count) (present : job.chunk.bytes[count]? = some byte) :
    ((world.setByte count byte).bridgeTo (.filling job (count + 1))).Sound config := by
  have fills := sound.fills
  rw [World.Fills, here] at fills
  obtain ⟨idle, fits, _, written⟩ := fills
  have inside : count < job.chunk.bytes.length := (List.getElem?_eq_some_iff.mp present).1
  have room : count < world.data.length := sound.size ▸ inside.trans_le fits
  have job : (BridgePhase.filling job (count + 1)).job = world.bridge.job := by
    rw [here]
    rfl
  apply sound.writes idle job
  · exact List.length_set.trans sound.size
  · exact ⟨idle, fits, inside, take_succ_set written present room⟩

theorem Sound.filled {job : Job} {count : Nat} (sound : world.Sound config)
    (here : world.bridge = .filling job count) (absent : job.chunk.bytes[count]? = none) :
    (world.bridgeTo (.storeLen job)).Sound config := by
  have fills := sound.fills
  rw [World.Fills, here] at fills
  obtain ⟨idle, fits, within, written⟩ := fills
  have all : count = job.chunk.bytes.length :=
    Nat.le_antisymm within (List.getElem?_eq_none_iff.mp absent)
  rw [all, List.take_length] at written
  have same : (BridgePhase.storeLen job).job = world.bridge.job := by
    rw [here]
    rfl
  exact sound.writes idle same sound.size ⟨idle, fits, written⟩

/-- Inside `data.slice`, and once it returns. -/
theorem Sound.slices {state : Signal} {flags len : Nat} {copied : Bytes}
    (sound : world.Sound config) (here : world.shim = .slicing state flags len copied)
    (more : copied.length < min len world.data.length) :
    (world.shimTo
      (.slicing state flags len (copied ++ [world.data.getD copied.length 0]))).Sound config := by
  have reads := sound.reads
  rw [World.Reads, here] at reads
  obtain ⟨busy, sameState, sameFlags, sameLen, _, copies⟩ := reads
  have inside : copied.length < world.data.length := more.trans_le (min_le_right _ _)
  refine sound.shimTo here rfl rfl rfl ⟨busy, sameState, sameFlags, sameLen, ?_, ?_⟩
  · rw [List.length_append]
    exact more
  · rw [List.length_append, List.length_singleton, List.take_add_one]
    change _ = world.data.take copied.length ++ world.data[copied.length]?.toList
    rw [← copies, List.getD_eq_getElem?_getD, List.getElem?_eq_getElem inside]
    rfl

theorem Sound.sliced {state : Signal} {flags len : Nat} {copied : Bytes}
    (sound : world.Sound config) (here : world.shim = .slicing state flags len copied)
    (all : min len world.data.length ≤ copied.length) :
    (world.shimTo (.releasing ⟨copied, flags, state⟩)).Sound config := by
  have reads := sound.reads
  rw [World.Reads, here] at reads
  obtain ⟨busy, rfl, rfl, rfl, within, copies⟩ := reads
  have whole : copied = world.data.take world.len := by
    rw [copies, Nat.le_antisymm within all, List.take_eq_take_iff, min_assoc, min_self]
  refine sound.shimTo here rfl rfl rfl ⟨busy, ?_⟩
  rw [whole]
  rfl

/-- A timely step keeps the invariant. -/
theorem Sound.step {label : Label} {world' : World} (sound : world.Sound config)
    (timely : Timely label world) (stepped : next config label world = some world') :
    world'.Sound config := by
  cases moved_of_next stepped with
  | calls here => exact sound.calls here
  | posts here => exact sound.posts here
  | seesIdle here => exact sound.shimTo here rfl rfl rfl trivial
  | seesChunk here busy => exact sound.shimTo here rfl rfl rfl busy
  | waits here => exact sound.shimTo here rfl rfl rfl trivial
  | expires here => exact sound.ends (by rw [here]; rfl) (Or.inl rfl)
  | loadsState here =>
      have reads := sound.reads
      rw [World.Reads, here] at reads
      exact sound.shimTo here rfl rfl rfl ⟨reads, rfl⟩
  | loadsFlags state here =>
      have reads := sound.reads
      rw [World.Reads, here] at reads
      exact sound.shimTo here rfl rfl rfl ⟨reads.1, reads.2, rfl⟩
  | loadsLen state flags here =>
      have reads := sound.reads
      rw [World.Reads, here] at reads
      exact sound.shimTo here rfl rfl rfl
        ⟨reads.1, reads.2.1, reads.2.2, rfl, Nat.zero_le _, rfl⟩
  | slices state flags len copied here more => exact sound.slices here more
  | sliced state flags len copied here all => exact sound.sliced here all
  | releases payload here => exact sound.releases here
  | goesOn payload heard here reaction => exact sound.goesOn here reaction
  | concludes payload outcome here reaction =>
      exact sound.ends (by rw [here]; rfl) (Or.inr (sound.concludes here reaction).1)
  | delivers request inbox parked posted => exact sound.delivers parked posted
  | settles request parked waiting => exact sound.settles parked waiting
  | spins => exact sound
  | begins job here idle fits =>
      exact sound.writes idle (by rw [here]; rfl) sound.size ⟨idle, fits, Nat.zero_le _, rfl⟩
  | raises job here idle long => exact sound.raises here long
  | fills job count byte here present => exact sound.fillsOn here present
  | filled job count here absent => exact sound.filled here absent
  | storesLen job here =>
      have fills := sound.fills
      rw [World.Fills, here] at fills
      obtain ⟨idle, fits, written⟩ := fills
      exact sound.writes idle (by rw [here]; rfl) sound.size ⟨idle, fits, written⟩
  | storesFlags job here =>
      have fills := sound.fills
      rw [World.Fills, here] at fills
      obtain ⟨idle, fits, written⟩ := fills
      exact sound.writes idle (by rw [here]; rfl) sound.size ⟨idle, fits, written, rfl⟩
  | publishes job here => exact sound.publishes here (timely rfl job here)

/-- The invariant holds in every state of a timely run. -/
theorem sound_of_timely (run : Run (next config) Timely (initial config) world) :
    world.Sound config :=
  run.invariant (Sound config) (sound_initial config)
    fun _ _ _ timely sound stepped => sound.step timely stepped

end World

/-- In every timely run, every call that returns does so with the reply to its own
request, and so does every call that throws an error of the bridge. -/
theorem ownReply_of_timely {config : Config} {world : World}
    (run : Run (next config) Timely (World.initial config) world) {request : Nat}
    {outcome : Outcome} (ended : world.results[request]? = some outcome) :
    config.OwnReply request outcome :=
  ((World.sound_of_timely run).genuine request outcome ended).ownReply

/-! ## Two requests -/

/-- The body of what a call returned. -/
def Outcome.body : Outcome → Option Bytes
  | .returned _ _ body => some body
  | _ => none

/-- Two requests with replies that differ in their bodies. -/
def twoRequests : Config where
  limit := 64
  positive := by decide
  rangeError := "offset is out of bounds".toList
  replies request := .response ⟨200, [], List.nodup_nil⟩ [UInt8.ofNat request]

/-- A test for timely steps. -/
def timely (label : Label) (world : World) : Bool :=
  match label, world.bridge, world.shim with
  | .bridge, .publishing _, .outside => true
  | .bridge, .publishing job, _ => job.request == world.results.length
  | _, _, _ => true

theorem timely_of_test (label : Label) (world : World) (passed : timely label world = true) :
    Timely label world := by
  rintro rfl job publishing inside
  unfold timely at passed
  rw [publishing] at passed
  cases here : world.shim <;> simp_all

/-- The chunk with the metadata is written and heard. -/
def metadataLabels : List Label :=
  List.replicate 32 .bridge ++ List.replicate 36 .shim

/-- The only chunk of the body is written and heard. -/
def bodyLabels : List Label :=
  List.replicate 6 .bridge ++ List.replicate 8 .shim

/-- A call is answered in time. -/
def promptLabels : List Label :=
  [.call, .shim, .deliver, .settle 0] ++ metadataLabels ++ bodyLabels

/-- The call returns the reply to its request. -/
theorem ownReply_promptLabels :
    ∃ outcome : Outcome, outcome.body = some [0] ∧ twoRequests.OwnReply 0 outcome := by
  have returned : (execWhile (next twoRequests) timely promptLabels
      (World.initial twoRequests)).bind (fun world => world.results[0]?.map Outcome.body) =
        some (some [0]) := by decide +kernel
  obtain ⟨world, executed, found⟩ := Option.bind_eq_some_iff.mp returned
  obtain ⟨outcome, ended, body⟩ := Option.map_eq_some_iff.mp found
  have run : Run (next twoRequests) Timely (World.initial twoRequests) world :=
    run_of_execWhile timely_of_test executed
  exact ⟨outcome, body, ownReply_of_timely run ended⟩

/-- A call runs out of time, and its request is answered while the next call is
running. -/
def lateLabels : List Label :=
  [.call, .shim, .deliver, .shim, .deadline, .call, .shim, .settle 0] ++ metadataLabels ++
    bodyLabels

/-- The second call returns the reply to the first request. -/
theorem not_ownReply_lateLabels :
    ∃ world outcome, exec (next twoRequests) lateLabels (World.initial twoRequests) = some world ∧
      world.results[1]? = some outcome ∧ outcome.body = some [0] ∧
        ¬ twoRequests.OwnReply 1 outcome := by
  have returned : (exec (next twoRequests) lateLabels (World.initial twoRequests)).bind
      (fun world => world.results[1]?.map Outcome.body) = some (some [0]) := by decide +kernel
  have own : (twoRequests.expected 1).bind Outcome.body = some [1] := by decide +kernel
  obtain ⟨world, executed, found⟩ := Option.bind_eq_some_iff.mp returned
  obtain ⟨outcome, ended, body⟩ := Option.map_eq_some_iff.mp found
  refine ⟨world, outcome, executed, ended, body, fun ownReply => ?_⟩
  cases outcome with
  | returned status headers data =>
      have expected : twoRequests.expected 1 = some (.returned status headers data) := ownReply
      rw [expected, Option.bind_some, body] at own
      cases own
  | bridgeError | unparsable | noMetadata | deadline => cases body

end Quackhole.Web
