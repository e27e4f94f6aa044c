import Quackhole.Web.Handoff

/-!
# One request at a time

While no deadline expires, each call has the bridge to itself: the bridge knows
of no request but the one of the running call, and when the call ends nothing of
it is left in the buffer, in the port or in a handler.
-/

namespace Quackhole.Web

open Quackhole.Word
open Quackhole.Transition

/-- No deadline expires. -/
def Untimed (label : Label) (_ : World) : Prop :=
  label ≠ .deadline

/-- What holds while no deadline expires. -/
structure World.Prompt (config : Config) (world : World) : Prop where
  sound : world.Sound config
  only : ∀ request ∈ world.requests, request = world.results.length
  quiet : world.shim.running = false → world.requests = [] ∧ world.state = .idle
  fitting : ∀ job, world.bridge.job = some job →
    ∀ chunk ∈ job.rest, chunk.bytes.length ≤ config.limit
  owing : ∀ job, world.bridge.job = some job →
    (config.expected world.results.length).isSome = true →
      sendable config.limit config.rangeError (job.chunk :: job.rest) ≠ []
  answered : ∀ request outcome, world.results[request]? = some outcome →
    config.expected request = some outcome

namespace World

variable {config : Config} {world world' : World}

theorem prompt_initial (config : Config) : (initial config).Prompt config where
  sound := sound_initial config
  only _ impossible := by cases impossible
  quiet _ := ⟨rfl, rfl⟩
  fitting _ impossible := by cases impossible
  owing _ impossible := by cases impossible
  answered _ _ impossible := by cases impossible

/-- The bridge knows of a request only while its call is running. -/
theorem Prompt.running {request : Nat} (prompt : world.Prompt config)
    (known : request ∈ world.requests) : world.shim.running = true := by
  by_contra waiting
  rw [(prompt.quiet (Bool.eq_false_iff.mpr waiting)).1] at known
  cases known

theorem mem_requests_of_job {job : Job} (writing : world.bridge.job = some job) :
    job.request ∈ world.requests := by
  rw [World.requests, writing]
  exact List.mem_append_right _ (List.mem_singleton.mpr rfl)

/-- Nothing is published for an abandoned request: none has been abandoned. -/
theorem Prompt.timely (prompt : world.Prompt config) (label : Label) : Timely label world := by
  intro _ job publishing _
  apply prompt.only
  apply mem_requests_of_job
  rw [publishing]
  rfl

/-- A step inside a running call. -/
theorem Prompt.keeps (prompt : world.Prompt config) (sound : world'.Sound config)
    (stays : world'.shim.running = true) (results : world'.results = world.results)
    (known : ∀ request ∈ world'.requests, request ∈ world.requests)
    (fitting : ∀ job, world'.bridge.job = some job →
      ∀ chunk ∈ job.rest, chunk.bytes.length ≤ config.limit)
    (owing : ∀ job, world'.bridge.job = some job →
      (config.expected world.results.length).isSome = true →
        sendable config.limit config.rangeError (job.chunk :: job.rest) ≠ []) :
    world'.Prompt config where
  sound := sound
  only request inside := by
    rw [results]
    exact prompt.only request (known request inside)
  quiet waiting := by
    rw [stays] at waiting
    cases waiting
  fitting := fitting
  owing := by
    rw [results]
    exact owing
  answered := by
    rw [results]
    exact prompt.answered

/-- A step of the shim inside a running call. -/
theorem Prompt.listens {state : Signal} {heard : Heard} {shim : ShimPhase}
    (prompt : world.Prompt config) (stays : shim.running = true)
    (sound : ({ world with state, heard, shim } : World).Sound config) :
    ({ world with state, heard, shim } : World).Prompt config :=
  prompt.keeps sound stays rfl (fun _ inside => inside) prompt.fitting prompt.owing

/-- A step of the handler that is writing. -/
theorem Prompt.writes {len flags : Nat} {data : Bytes} {bridge : BridgePhase} {job : Job}
    (prompt : world.Prompt config) (writing : world.bridge.job = some job)
    (same : bridge.job = some job)
    (sound : ({ world with len, flags, data, bridge } : World).Sound config) :
    ({ world with len, flags, data, bridge } : World).Prompt config := by
  have running := prompt.running (mem_requests_of_job writing)
  have unchanged : bridge.job = world.bridge.job := same.trans writing.symm
  apply prompt.keeps sound running rfl
  · intro request inside
    rw [World.requests, ← unchanged]
    exact inside
  · exact fun other continues => prompt.fitting other (unchanged.symm.trans continues)
  · exact fun other continues => prompt.owing other (unchanged.symm.trans continues)

/-- The call begins where nothing was left. -/
theorem Prompt.calls (prompt : world.Prompt config) (here : world.shim = .outside) :
    { world with state := .idle, shim := .posting, heard := .nothing : World }.Prompt config where
  sound := prompt.sound.calls here
  only := prompt.only
  quiet _ := ⟨(prompt.quiet (by rw [here]; rfl)).1, rfl⟩
  fitting := prompt.fitting
  owing := prompt.owing
  answered := prompt.answered

theorem Prompt.posts (prompt : world.Prompt config) (here : world.shim = .posting) :
    { world with inbox := world.inbox ++ [world.results.length], shim := .polling : World }.Prompt
      config := by
  obtain ⟨empty, _⟩ := prompt.quiet (by rw [here]; rfl)
  constructor
  · exact prompt.sound.posts here
  · intro request inside
    by_contra other
    have earlier : request ∈ world.requests := by
      simp only [World.requests, World.waiting, List.mem_append, List.mem_singleton] at inside ⊢
      tauto
    rw [empty] at earlier
    cases earlier
  · intro impossible
    cases impossible
  · exact prompt.fitting
  · exact prompt.owing
  · exact prompt.answered

/-- While the bridge knows of the request of the running call, and has an answer,
it owes the call something. -/
theorem Prompt.owes (prompt : world.Prompt config)
    (produced : (config.expected world.results.length).isSome = true) {request : Nat}
    (known : request ∈ world.requests) : world.owed config world.results.length ≠ [] := by
  obtain rfl := prompt.only request known
  by_cases waiting : world.results.length ∈ world.waiting
  · rw [owed_of_waiting waiting]
    intro nothing
    have comes := comesTo_sendable config.positive config.rangeError
      (config.replies world.results.length)
    rw [nothing] at comes
    rw [Config.expected, show Option.map _ _ = _ from comes] at produced
    cases produced
  · rw [World.requests, List.mem_append] at known
    obtain ⟨job, writing, own⟩ := Option.map_eq_some_iff.mp
      (Option.mem_toList.mp (known.resolve_left waiting))
    rw [owed_of_job waiting writing, if_pos own]
    exact prompt.owing job writing produced

/-- The call ends with what its request came to, and leaves nothing behind. -/
theorem Prompt.concludes {payload : Chunk} {outcome : Outcome} (prompt : world.Prompt config)
    (here : world.shim = .reacting payload) (reaction : world.heard.react payload = .inr outcome) :
    (world.ends outcome).Prompt config := by
  obtain ⟨expected, nothing⟩ := prompt.sound.concludes here reaction
  obtain ⟨taken, settled⟩ := List.append_eq_nil_iff.mp nothing
  have produced : (config.expected world.results.length).isSome = true := by
    rw [expected]
    rfl
  have idle : world.state = .idle := by
    by_contra busy
    rw [World.buffered, if_neg busy] at taken
    cases taken
  have forgotten : world.requests = [] := by
    by_contra known
    obtain ⟨request, inside⟩ := List.exists_mem_of_ne_nil _ known
    exact prompt.owes produced inside settled
  constructor
  · exact prompt.sound.ends (by rw [here]; rfl) (Or.inr expected)
  · intro request inside
    rw [show (world.ends outcome).requests = [] from forgotten] at inside
    cases inside
  · exact fun _ => ⟨forgotten, idle⟩
  · exact prompt.fitting
  · intro job writing
    have inside := mem_requests_of_job writing
    rw [show (world.ends outcome).requests = [] from forgotten] at inside
    cases inside
  · exact forall_results_ends prompt.answered expected

/-- The first chunk of what is sent is one that fits, or the error about one that
does not. -/
theorem sendable_ne_nil {limit : Nat} {rangeError : Text} {chunk : Chunk} {rest : List Chunk}
    (fits : chunk.bytes.length ≤ limit) : sendable limit rangeError (chunk :: rest) ≠ [] := by
  rw [sendable, if_pos fits]
  exact List.cons_ne_nil _ _

theorem Prompt.delivers {request : Nat} {inbox : List Nat} (prompt : world.Prompt config)
    (parked : world.bridge = .parked) (posted : world.inbox = request :: inbox) :
    ({ world with inbox, pending := world.pending ++ [request] } : World).Prompt config := by
  have known : request ∈ world.requests := by
    simp [World.requests, World.waiting, posted]
  apply prompt.keeps (prompt.sound.delivers parked posted) (prompt.running known) rfl
  · intro other inside
    simp only [World.requests, World.waiting, posted, List.mem_append, List.mem_cons,
      List.not_mem_nil, or_false] at inside ⊢
    tauto
  · exact prompt.fitting
  · exact prompt.owing

/-- The pieces of a reply after the first all fit. -/
theorem fitting_chunks {limit : Nat} {reply : Reply} {chunk : Chunk} {rest : List Chunk}
    (calls : reply.chunks limit = chunk :: rest) : ∀ piece ∈ rest, piece.bytes.length ≤ limit := by
  intro piece member
  cases reply with
  | failure message =>
      obtain ⟨_, rfl⟩ := List.cons.inj calls
      cases member
  | response head body =>
      obtain ⟨_, rfl⟩ := List.cons.inj calls
      exact length_le_of_mem_bodyChunks member

theorem Prompt.settles {request : Nat} (prompt : world.Prompt config)
    (parked : world.bridge = .parked) (waiting : request ∈ world.pending) :
    ({ world with
        pending := world.pending.erase request
        bridge := writeChunks request ((config.replies request).chunks config.limit) } :
      World).Prompt config := by
  have sound := prompt.sound.settles parked waiting
  obtain ⟨chunk, rest, calls⟩ := exists_chunks config.limit (config.replies request)
  rw [calls] at sound ⊢
  have inside : request ∈ world.waiting := List.mem_append_right _ waiting
  have known : request ∈ world.requests := List.mem_append_left _ inside
  obtain rfl := prompt.only request known
  apply prompt.keeps sound (prompt.running known) rfl
  · intro other member
    simp only [World.requests, World.waiting, writeChunks, BridgePhase.job, Option.map_some,
      Option.toList_some, List.mem_append, List.mem_singleton] at member ⊢
    rcases member with (early | late) | rfl
    · exact Or.inl (Or.inl early)
    · exact Or.inl (Or.inr (List.mem_of_mem_erase late))
    · exact Or.inl (Or.inr waiting)
  · rintro _ ⟨rfl⟩
    exact fitting_chunks calls
  · rintro _ ⟨rfl⟩ produced
    have owes := prompt.owes produced known
    rw [owed_of_waiting inside, calls] at owes
    exact owes

theorem Prompt.raises {job : Job} (prompt : world.Prompt config)
    (here : world.bridge = .polling job) (long : ¬ job.chunk.bytes.length ≤ config.limit) :
    (world.bridgeTo (afterRangeError config job)).Prompt config := by
  have writing : world.bridge.job = some job := by
    rw [here]
    rfl
  have known := mem_requests_of_job writing
  have sound := prompt.sound.raises here long
  have owing := prompt.owing job writing
  by_cases failed : job.chunk.state = .error
  · rw [afterRangeError, if_pos failed] at sound ⊢
    apply prompt.keeps sound (prompt.running known) rfl
    · intro request inside
      have waiting : request ∈ world.waiting ++ [] := inside
      rw [List.append_nil] at waiting
      exact List.mem_append_left _ waiting
    · intro _ impossible
      cases impossible
    · intro _ impossible
      cases impossible
  · rw [afterRangeError, if_neg failed] at sound ⊢
    apply prompt.keeps sound (prompt.running known) rfl
    · intro request inside
      rw [World.requests, writing]
      exact inside
    · rintro _ ⟨rfl⟩ chunk impossible
      cases impossible
    · rintro _ ⟨rfl⟩ produced
      have before := owing produced
      rw [sendable, if_neg long, if_neg failed] at before
      by_cases fits : (failChunk config.rangeError).bytes.length ≤ config.limit
      · exact sendable_ne_nil fits
      · rw [if_neg fits] at before
        exact absurd rfl before

theorem Prompt.publishes {job : Job} (prompt : world.Prompt config)
    (here : world.bridge = .publishing job) :
    ({ world with state := job.chunk.state, bridge := writeChunks job.request job.rest } :
      World).Prompt config := by
  have writing : world.bridge.job = some job := by
    rw [here]
    rfl
  have known := mem_requests_of_job writing
  have sound := prompt.sound.publishes here (prompt.timely .bridge rfl job here)
  have fitting := prompt.fitting job writing
  cases rest : job.rest with
  | nil =>
      rw [rest] at sound
      apply prompt.keeps sound (prompt.running known) rfl
      · intro request inside
        have waiting : request ∈ world.waiting ++ [] := inside
        rw [List.append_nil] at waiting
        exact List.mem_append_left _ waiting
      · intro _ impossible
        cases impossible
      · intro _ impossible
        cases impossible
  | cons chunk chunks =>
      rw [rest] at sound fitting
      apply prompt.keeps sound (prompt.running known) rfl
      · intro request inside
        rw [World.requests, writing]
        exact inside
      · rintro _ ⟨rfl⟩ piece member
        exact fitting piece (List.mem_cons_of_mem _ member)
      · rintro _ ⟨rfl⟩ _
        exact sendable_ne_nil (fitting chunk List.mem_cons_self)

/-- Every step before a deadline keeps the invariant. -/
theorem Prompt.step {label : Label} (prompt : world.Prompt config)
    (untimed : Untimed label world) (stepped : next config label world = some world') :
    world'.Prompt config := by
  have sound := prompt.sound.step (prompt.timely label) stepped
  cases moved_of_next stepped with
  | calls here => exact prompt.calls here
  | posts here => exact prompt.posts here
  | expires => exact absurd rfl untimed
  | concludes payload outcome here reaction => exact prompt.concludes here reaction
  | seesIdle | seesChunk | waits | loadsState | loadsFlags | loadsLen | slices | sliced
  | releases | goesOn => exact prompt.listens rfl sound
  | delivers request inbox parked posted => exact prompt.delivers parked posted
  | settles request parked waiting => exact prompt.settles parked waiting
  | spins => exact prompt
  | raises job here idle long => exact prompt.raises here long
  | publishes job here => exact prompt.publishes here
  | begins job here | filled job count here | storesLen job here | storesFlags job here =>
      have writing : world.bridge.job = some job := by
        rw [here]
        rfl
      exact prompt.writes writing rfl sound
  | fills job count byte here =>
      have writing : world.bridge.job = some job := by
        rw [here]
        rfl
      have filled : ({ world with
          data := world.data.set count byte
          bridge := .filling job (count + 1) } : World).Prompt config :=
        prompt.writes writing rfl sound
      exact filled

/-- The invariant holds in every state of a run without a deadline. -/
theorem prompt_of_untimed (run : Run (next config) Untimed (initial config) world) :
    world.Prompt config :=
  run.invariant (Prompt config) (prompt_initial config)
    fun _ _ _ untimed prompt stepped => prompt.step untimed stepped

end World

end Quackhole.Web
