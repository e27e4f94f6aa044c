import Quackhole.Dial.Pool

/-!
# What leaves the cache, and what stays in it

A request takes its peer's entry out of the cache when its first attempt fails, and
puts the connection it has dialled in the place of whatever is there.  The entry is
the connection it was thinking of as long as no other request has stored one in the
meantime.  A second attempt that fails takes nothing out.
-/

namespace Quackhole.Dial

open Quackhole.Word
open Quackhole.Compress
open Quackhole.Transition

variable {Id Worker Conn : Type}

/-! ## Only failed connections are evicted -/

/-- The request may still replace or remove its peer's entry, on the strength of what
the cache held when it last asked. -/
def Phase.exposed : Phase Conn → Bool
  | .connecting _ | .storing _ _ => true
  | .opening (.first _) _ | .writing (.first _) _ _ | .reading (.first _) _ => true
  | .resolved (.first _) _ attempt => attempt.failed
  | _ => false

/-- The entry is what the request takes it for: nothing while it dials, and the
connection in hand, if anything, in its first attempt. -/
def Phase.Current (cached : Option Conn) : Phase Conn → Prop
  | .connecting _ | .storing _ _ => cached = none
  | .opening (.first _) conn | .writing (.first _) conn _ | .reading (.first _) conn =>
      ∀ found ∈ cached, found = conn
  | .resolved (.first _) conn attempt => attempt.failed = true → ∀ found ∈ cached, found = conn
  | _ => True

/-- A request stores the connection it has dialled only when no other request to the
peer is dialling or in its first attempt. -/
def Undisturbed (config : PoolConfig Id Worker) : PoolLabel Id Worker → Pool Id Worker → Prop
  | .request worker .proceed, pool => ∀ round conn, pool.phase worker = .storing round conn →
      ∀ other, other ≠ worker → config.peer other = config.peer worker →
        (pool.phase other).exposed = false
  | _, _ => True

theorem Phase.current_none (phase : Phase Conn) : phase.Current none := by
  unfold Phase.Current
  split <;> simp

theorem Phase.current_of_not_exposed {phase : Phase Conn} (hidden : phase.exposed = false)
    (cached : Option Conn) : phase.Current cached := by
  unfold Phase.exposed at hidden
  split at hidden
  · cases hidden
  · cases hidden
  · cases hidden
  · cases hidden
  · cases hidden
  · intro failed
    rw [hidden] at failed
    cases failed
  · unfold Phase.Current
    split <;> simp_all

theorem current_writePhase {cached : Option Conn} {round : Round} {conn : Conn} (pending : Bytes)
    (current : ∀ found ∈ cached, found = conn) : (writePhase round conn pending).Current cached := by
  unfold writePhase
  cases round <;> split <;> first | exact current | trivial

section Steps

variable [DecidableEq Id] {gzip : Codec} {id : Id} {name : Text} {req : Bytes}
  {label : Label Id Conn} {call call' : Call Id Conn}

/-- Settling leaves nothing cached or nothing to be current with. -/
theorem current_settle (call : Call Id Conn) (round : Round) (attempt : Attempt) :
    (settle gzip id call round attempt).phase.Current
      ((settle gzip id call round attempt).cache id) := by
  cases round with
  | second => cases attempt <;> trivial
  | first reused =>
      cases attempt with
      | response body => trivial
      | beforeSend message => cases reused <;> trivial
      | afterSend message => trivial

/-- A step of a request keeps its own view of the entry current. -/
theorem Phase.Current.step (moved : Moved gzip id name req call label call')
    (own : ∀ cache, label ≠ .others cache) (current : call.phase.Current (call.cache id)) :
    call'.phase.Current (call'.cache id) := by
  cases moved with
  | others cache => exact absurd rfl (own cache)
  | begins here => trivial
  | dials round here uncached => exact uncached
  | unconnected round cause message here => trivial
  | reuses round conn here cached =>
      cases round with
      | second => trivial
      | first reused =>
          intro found member
          cases cached.symm.trans member
          rfl
  | connects round conn here =>
      rw [here] at current
      exact current
  | stores round conn here =>
      cases round with
      | second => trivial
      | first reused =>
          intro found member
          simp only [Call.beginAttempt, Call.setCached, Function.update_self] at member
          cases member
          rfl
  | opens round conn here =>
      rw [here] at current
      cases round with
      | second => unfold writePhase Call.enter; split <;> trivial
      | first reused => exact current_writePhase req current
  | accepts round conn pending count here =>
      rw [here] at current
      cases round with
      | second => unfold writePhase; split <;> trivial
      | first reused => exact current_writePhase _ current
  | unopened round conn cause message here | unwritten round conn pending cause message here
  | reads round conn body here | unread round conn cause message here =>
      rw [here] at current
      cases round with
      | second => trivial
      | first reused => exact fun _ => current
  | settles round conn attempt here => exact current_settle call round attempt

end Steps

/-- Every request's view of its peer's entry is current. -/
def Pool.Orderly (config : PoolConfig Id Worker) (pool : Pool Id Worker) : Prop :=
  ∀ worker, (pool.phase worker).Current (pool.cache (config.peer worker))

section Runs

variable {config : PoolConfig Id Worker} {pool pool' : Pool Id Worker} [DecidableEq Id]
  [DecidableEq Worker]

/-- An undisturbed step keeps the views of all requests current: the others are shown
the same entry, or none, or are not exposed. -/
theorem Pool.Orderly.update {worker : Worker} {label : Label Id (Connection Id)}
    {call : Call Id (Connection Id)} (orderly : pool.Orderly config)
    (undisturbed : Undisturbed config (.request worker label) pool)
    (permitted : pool.permits config worker label = true)
    (moved : Moved config.gzip (config.peer worker) (config.name (config.peer worker))
      (config.req worker) (pool.call worker) label call) :
    (pool.update worker label call).Orderly config := by
  have own := Pool.own_of_permits permitted
  intro other
  by_cases same : other = worker
  · subst same
    rw [Pool.phase_update_self]
    have current : (pool.call other).phase.Current ((pool.call other).cache (config.peer other)) :=
      orderly other
    exact current.step moved own
  · rw [Pool.phase_update_of_ne same, Pool.cache_update]
    rcases cache_of_moved moved own with ⟨round, conn, here, cache⟩ | ⟨_, _, _, _, _, cache⟩ | cache
    · rw [cache]
      by_cases peer : config.peer other = config.peer worker
      · obtain rfl := proceed_of_storing moved own here
        exact Phase.current_of_not_exposed (undisturbed round conn here other same peer) _
      · rw [Function.update_of_ne peer]
        exact orderly other
    · rw [cache]
      by_cases peer : config.peer other = config.peer worker
      · rw [peer, Function.update_self]
        exact Phase.current_none _
      · rw [Function.update_of_ne peer]
        exact orderly other
    · rw [cache]
      exact orderly other

theorem Pool.Orderly.step {label : PoolLabel Id Worker} (orderly : pool.Orderly config)
    (undisturbed : Undisturbed config label pool)
    (stepped : poolNext config label pool = some pool') : pool'.Orderly config := by
  cases moved_of_poolNext stepped with
  | request worker label call permitted moved => exact orderly.update undisturbed permitted moved
  | expire worker result =>
      intro other
      simp only [Function.update_apply]
      split
      · trivial
      · exact orderly other
  | closeAll => exact fun other => Phase.current_none _

/-- In every run in which a request stores a connection only when no other request to
the peer is dialling or in its first attempt: whatever a step takes out of the cache,
other than by closing all connections, is a connection on which an attempt has
failed. -/
theorem failed_of_evicted
    (run : Run (poolNext config) (Undisturbed config) Pool.initial pool)
    {label : PoolLabel Id Worker} (stepped : poolNext config label pool = some pool')
    (kept : label ≠ .closeAll) {id : Id} {conn : Connection Id}
    (cached : pool.cache id = some conn) (removed : pool'.cache id ≠ some conn) :
    ∃ worker, (worker, conn) ∈ pool.failed := by
  have orderly : pool.Orderly config := run.invariant (Pool.Orderly config) (fun _ => trivial)
    fun _ _ _ undisturbed orderly stepped => orderly.step undisturbed stepped
  cases moved_of_poolNext stepped with
  | expire worker result => exact absurd cached removed
  | closeAll => exact absurd rfl kept
  | request worker label call permitted moved =>
      have current := orderly worker
      rcases cache_of_moved moved (Pool.own_of_permits permitted) with
        ⟨round, stored, here, cache⟩ | ⟨reused, tried, attempt, here, failed, cache⟩ | cache
      · simp only [Pool.update, cache, Function.update_apply] at removed
        split at removed
        · rename_i peer
          subst peer
          rw [show pool.phase worker = .storing round stored from here] at current
          cases cached.symm.trans current
        · exact absurd cached removed
      · simp only [Pool.update, cache, Function.update_apply] at removed
        split at removed
        · rename_i peer
          subst peer
          have phase : pool.phase worker = .resolved (.first reused) tried attempt := here
          rw [phase] at current
          rcases current failed conn cached with rfl
          refine ⟨worker, Pool.recorded_of_reachable run.reachable worker conn ?_⟩
          rw [phase, Phase.failure, if_pos failed]
        · exact absurd cached removed
      · simp only [Pool.update, cache] at removed
        exact absurd cached removed

/-- An innocent connection is taken out of the cache later on. -/
def Pool.EvictsLater (config : PoolConfig Id Worker) (pool : Pool Id Worker) : Prop :=
  ∃ before after label id conn, Reachable (poolNext config) pool before ∧
    poolNext config label before = some after ∧ label ≠ .closeAll ∧
    before.cache id = some conn ∧ after.cache id ≠ some conn ∧
    ∀ worker, (worker, conn) ∉ before.failed

/-- What can happen after a step can happen later. -/
theorem Pool.EvictsLater.of_step {label : PoolLabel Id Worker}
    (stepped : poolNext config label pool = some pool') (later : pool'.EvictsLater config) :
    pool.EvictsLater config := by
  rcases later with ⟨before, after, last, id, conn, reachable, rest⟩
  exact ⟨before, after, last, id, conn, (reachable_of_next label stepped).trans reachable, rest⟩

/-- A first attempt that has failed on another connection evicts the one in the cache. -/
theorem Pool.evictsLater_of_failure {worker : Worker} {reused : Bool}
    {tried conn : Connection Id} {attempt : Attempt}
    (here : pool.phase worker = .resolved (.first reused) tried attempt)
    (failed : attempt.failed = true) (cached : pool.cache (config.peer worker) = some conn)
    (innocent : ∀ other, (other, conn) ∉ pool.failed) : pool.EvictsLater config := by
  have moves : next config.gzip (config.peer worker) (config.name (config.peer worker))
      (config.req worker) .proceed (pool.call worker) =
        some (settle config.gzip (config.peer worker) (pool.call worker) (.first reused)
          attempt) := by
    simp only [next, Pool.call, here]
  refine ⟨pool, _, _, config.peer worker, conn, Run.refl, poolNext_request rfl moves,
    by simp, cached, ?_, innocent⟩
  cases attempt with
  | response body => cases failed
  | beforeSend message => simp [Pool.update, settle, Call.setCached, Call.enter]
  | afterSend message => simp [Pool.update, settle, Call.setCached, Call.enter]

/-- A request that has dialled another connection puts it in the place of the one in
the cache. -/
theorem Pool.evictsLater_of_storing {worker : Worker} {round : Round}
    {made conn : Connection Id} (here : pool.phase worker = .storing round made)
    (different : made ≠ conn) (cached : pool.cache (config.peer worker) = some conn)
    (innocent : ∀ other, (other, conn) ∉ pool.failed) : pool.EvictsLater config := by
  have moves : next config.gzip (config.peer worker) (config.name (config.peer worker))
      (config.req worker) .proceed (pool.call worker) =
        some (((pool.call worker).setCached (config.peer worker) (some made)).beginAttempt
          round made) := by
    simp only [next, Pool.call, here]
  refine ⟨pool, _, _, config.peer worker, conn, Run.refl, poolNext_request rfl moves,
    by simp, cached, ?_, innocent⟩
  simp [Pool.update, Call.beginAttempt, Call.setCached, different]

/-- An exposed request can go on to evict a connection that is cached for its peer and
is not the one it has in hand. -/
theorem Pool.evictsLater_of_exposed {worker : Worker} {conn : Connection Id}
    (exposed : (pool.phase worker).exposed = true)
    (unheld : (pool.phase worker).conn ≠ some conn) (known : conn.number < pool.dialled)
    (cached : pool.cache (config.peer worker) = some conn)
    (innocent : ∀ other, (other, conn) ∉ pool.failed) : pool.EvictsLater config := by
  have fails : ∀ label reused tried attempt, pool.permits config worker label = true →
      attempt.failed = true → (pool.phase worker).conn = some tried →
      next config.gzip (config.peer worker) (config.name (config.peer worker))
        (config.req worker) label (pool.call worker) =
          some ((pool.call worker).enter (.resolved (.first reused) tried attempt)) →
      pool.EvictsLater config := by
    intro label reused tried attempt permitted failed held moves
    have now : (pool.update worker label ((pool.call worker).enter
        (.resolved (.first reused) tried attempt))).phase worker =
          .resolved (.first reused) tried attempt := Pool.phase_update_self
    apply Pool.EvictsLater.of_step (poolNext_request permitted moves)
    apply Pool.evictsLater_of_failure now failed cached
    intro other member
    rcases Pool.mem_failed_update.mp member with old | ⟨-, failure⟩
    · exact innocent other old
    · simp only [Call.enter, Phase.failure, failed, if_true] at failure
      exact unheld (held.trans failure)
  cases here : pool.phase worker with
  | begin | lookup | done =>
      rw [here] at exposed
      cases exposed
  | connecting round =>
      have moves : next config.gzip (config.peer worker) (config.name (config.peer worker))
          (config.req worker) (.connect (.ok ⟨config.peer worker, pool.dialled⟩))
          (pool.call worker) =
            some ((pool.call worker).enter
              (.storing round ⟨config.peer worker, pool.dialled⟩)) := by
        simp only [next, Pool.call, here]
      have now : (pool.update worker (.connect (.ok ⟨config.peer worker, pool.dialled⟩))
          ((pool.call worker).enter
            (.storing round ⟨config.peer worker, pool.dialled⟩))).phase worker =
              .storing round ⟨config.peer worker, pool.dialled⟩ := Pool.phase_update_self
      apply Pool.EvictsLater.of_step (poolNext_request (by simp [Pool.permits]) moves)
      refine Pool.evictsLater_of_storing now ?_ cached innocent
      rintro rfl
      exact Nat.lt_irrefl _ known
  | storing round made =>
      refine Pool.evictsLater_of_storing here (fun same => ?_) cached innocent
      rw [here, same] at unheld
      exact unheld rfl
  | opening round tried =>
      cases round with
      | second =>
          rw [here] at exposed
          cases exposed
      | first reused =>
          exact fails (.openBi (.error [])) reused tried _ rfl rfl (congrArg Phase.conn here)
            (by simp only [next, Pool.call, here]; rfl)
  | writing round tried pending =>
      cases round with
      | second =>
          rw [here] at exposed
          cases exposed
      | first reused =>
          exact fails (.writeFails []) reused tried _ rfl rfl (congrArg Phase.conn here)
            (by simp only [next, Pool.call, here]; rfl)
  | reading round tried =>
      cases round with
      | second =>
          rw [here] at exposed
          cases exposed
      | first reused =>
          exact fails (.readToEnd (.error [])) reused tried _ rfl rfl (congrArg Phase.conn here)
            (by simp only [next, Pool.call, here]; rfl)
  | resolved round tried attempt =>
      rw [here] at exposed
      cases round with
      | second => cases exposed
      | first reused => exact Pool.evictsLater_of_failure here exposed cached innocent

/-- The condition is sharp: a step that stores a connection while another request to the
peer is exposed can be followed by the eviction of that very connection, on which no
attempt has failed. -/
theorem exists_evicted_of_disturbed {label : PoolLabel Id Worker}
    (reachable : Reachable (poolNext config) Pool.initial pool)
    (disturbed : ¬ Undisturbed config label pool) :
    ∃ stored, poolNext config label pool = some stored ∧ stored.EvictsLater config := by
  unfold Undisturbed at disturbed
  split at disturbed
  · rename_i worker
    push Not at disturbed
    rcases disturbed with ⟨round, conn, here, other, different, peer, exposed⟩
    have fresh := Pool.fresh_of_reachable reachable
    have unused := fresh.unused worker round conn here
    have known := (fresh.held worker conn (congrArg Phase.conn here)).2
    have moves : next config.gzip (config.peer worker) (config.name (config.peer worker))
        (config.req worker) .proceed (pool.call worker) =
          some (((pool.call worker).setCached (config.peer worker) (some conn)).beginAttempt
            round conn) := by
      simp only [next, Pool.call, here]
    refine ⟨_, poolNext_request rfl moves, ?_⟩
    generalize after : pool.update worker .proceed (((pool.call worker).setCached
      (config.peer worker) (some conn)).beginAttempt round conn) = stored
    have phase : stored.phase other = pool.phase other := by
      rw [← after]
      exact Pool.phase_update_of_ne different
    have cached : stored.cache (config.peer other) = some conn := by
      rw [← after, peer]
      exact Function.update_self ..
    have innocent : ∀ failing, (failing, conn) ∉ stored.failed := by
      rw [← after]
      exact unused.unfailed
    have dialled : conn.number < stored.dialled := by
      rw [← after]
      exact known
    apply Pool.evictsLater_of_exposed _ _ dialled cached innocent
    · rw [phase]
      simpa using exposed
    · rw [phase]
      exact unused.unheld other different
  · exact absurd trivial disturbed

end Runs

/-- Requests to one peer, with nothing to send. -/
def samplePool (Worker : Type) : PoolConfig Nat Worker where
  gzip := sampleGzip
  name := fun _ => "peer".toList
  peer := fun _ => 7
  req := fun _ => []

/-- The first connection that is dialled, and the second. -/
def sampleConn (number : Nat) : Connection Nat :=
  ⟨7, number⟩

/-- The labels of a request that finds no connection, up to its await of the response. -/
def dialLabels {Worker : Type} (worker : Worker) (number : Nat) : List (PoolLabel Nat Worker) :=
  [.request worker .proceed, .request worker .proceed,
    .request worker (.connect (.ok (sampleConn number))), .request worker .proceed,
    .request worker (.openBi (.ok ()))]

/-- Is the step of one of two requests undisturbed by the other? -/
def calm (label : PoolLabel Nat Bool) (pool : Pool Nat Bool) : Bool :=
  match label with
  | .request worker .proceed => !(pool.phase !worker).exposed
  | _ => true

theorem undisturbed_of_calm (label : PoolLabel Nat Bool) (pool : Pool Nat Bool)
    (passed : calm label pool = true) : Undisturbed (samplePool Bool) label pool := by
  unfold Undisturbed
  split
  · rename_i worker
    intro round conn here other different peer
    rw [Bool.eq_not_of_ne different]
    simpa [calm] using passed
  · trivial

/-- A second request reuses the connection of a first one, and its attempt on it
fails. -/
theorem failed_of_evicted_reused :
    ∃ pool : Pool Nat Bool, ∃ worker, (worker, sampleConn 0) ∈ pool.failed := by
  have ran : ∃ pool, execWhile (poolNext (samplePool Bool)) calm
      (dialLabels false 0 ++ [.request false (.readToEnd (.ok [])), .request false .proceed,
        .request true .proceed, .request true .proceed, .request true (.openBi (.ok ())),
        .request true (.readToEnd (.error []))]) Pool.initial = some pool ∧
      pool.cache 7 = some (sampleConn 0) ∧
      ∃ pool', poolNext (samplePool Bool) (.request true .proceed) pool = some pool' ∧
        pool'.cache 7 ≠ some (sampleConn 0) :=
    ⟨_, rfl, rfl, _, rfl, by decide⟩
  rcases ran with ⟨pool, executed, cached, pool', stepped, removed⟩
  exact ⟨pool, failed_of_evicted (run_of_execWhile undisturbed_of_calm executed) stepped
    (by simp) cached removed⟩

/-- Two requests find a stale connection; one of them dials and stores a new one, on
which no attempt has failed, and the failure of the other evicts it.  And two requests
that find none both dial, and the second takes the place of the first. -/
theorem evicted_not_failed :
    (∃ pool pool' : Pool Nat Nat,
      Reachable (poolNext (samplePool Nat)) Pool.initial pool ∧
        poolNext (samplePool Nat) (.request 2 .proceed) pool = some pool' ∧
        pool.cache 7 = some (sampleConn 1) ∧ pool'.cache 7 = none ∧
        pool.failed = [(2, sampleConn 0), (1, sampleConn 0)]) ∧
      ∃ pool pool' : Pool Nat Nat,
        Reachable (poolNext (samplePool Nat)) Pool.initial pool ∧
          poolNext (samplePool Nat) (.request 1 .proceed) pool = some pool' ∧
          pool.cache 7 = some (sampleConn 0) ∧ pool'.cache 7 = some (sampleConn 1) ∧
          pool.failed = [] := by
  constructor
  · have executed : ∃ pool, exec (poolNext (samplePool Nat))
        (dialLabels 0 0 ++ [.request 0 (.readToEnd (.ok [])), .request 0 .proceed,
          .request 1 .proceed, .request 1 .proceed, .request 2 .proceed, .request 2 .proceed,
          .request 1 (.openBi (.error [])), .request 1 .proceed, .request 1 .proceed,
          .request 1 (.connect (.ok (sampleConn 1))), .request 1 .proceed,
          .request 2 (.openBi (.error []))]) Pool.initial = some pool ∧
        (∃ pool', poolNext (samplePool Nat) (.request 2 .proceed) pool = some pool' ∧
          pool.cache 7 = some (sampleConn 1) ∧ pool'.cache 7 = none) ∧
        pool.failed = [(2, sampleConn 0), (1, sampleConn 0)] :=
      ⟨_, rfl, ⟨_, rfl, rfl, rfl⟩, rfl⟩
    rcases executed with ⟨pool, executed, ⟨pool', stepped, cached, removed⟩, failed⟩
    exact ⟨pool, pool', reachable_of_exec executed, stepped, cached, removed, failed⟩
  · have executed : ∃ pool, exec (poolNext (samplePool Nat))
        ([.request 1 .proceed, .request 1 .proceed] ++ dialLabels 0 0 ++
          [.request 1 (.connect (.ok (sampleConn 1)))]) Pool.initial = some pool ∧
        (∃ pool', poolNext (samplePool Nat) (.request 1 .proceed) pool = some pool' ∧
          pool.cache 7 = some (sampleConn 0) ∧ pool'.cache 7 = some (sampleConn 1)) ∧
        pool.failed = [] :=
      ⟨_, rfl, ⟨_, rfl, rfl, rfl⟩, rfl⟩
    rcases executed with ⟨pool, executed, ⟨pool', stepped, cached, removed⟩, failed⟩
    exact ⟨pool, pool', reachable_of_exec executed, stepped, cached, removed, failed⟩

/-! ## What a failed request leaves in the cache -/

/-- Of a request that is not over, the failed connections are out of the cache, but for
the one of an attempt that has not been settled. -/
def Pool.Cleared (pool : Pool Id Worker) : Prop :=
  ∀ worker conn, (worker, conn) ∈ pool.failed →
    (∃ result, pool.phase worker = .done result) ∨ (pool.phase worker).failure = some conn ∨
      ∀ id, pool.cache id ≠ some conn

/-- The request is about to report the failure of its second attempt, and the cache still
holds the connection of it. -/
def Pool.LeavesBehind (config : PoolConfig Id Worker) (pool : Pool Id Worker)
    (worker : Worker) : Prop :=
  ∃ conn attempt, pool.phase worker = .resolved .second conn attempt ∧
    attempt.failed = true ∧ pool.cache (config.peer worker) = some conn

section Runs

variable {config : PoolConfig Id Worker} {pool pool' : Pool Id Worker} [DecidableEq Id]
  {worker : Worker} {label : Label Id (Connection Id)} {call : Call Id (Connection Id)}

/-- A connection that has failed is not put back. -/
theorem Pool.Fresh.uncached_update (fresh : pool.Fresh config) {conn : Connection Id}
    {failing : Worker} (failed : (failing, conn) ∈ pool.failed)
    (uncached : ∀ id, pool.cache id ≠ some conn)
    (permitted : pool.permits config worker label = true)
    (moved : Moved config.gzip (config.peer worker) (config.name (config.peer worker))
      (config.req worker) (pool.call worker) label call) (id : Id) :
    call.cache id ≠ some conn := by
  rcases cache_of_moved moved (Pool.own_of_permits permitted) with
    ⟨round, stored, here, cache⟩ | ⟨_, _, _, _, _, cache⟩ | cache
  · rw [cache, Function.update_apply]
    split
    · rintro ⟨⟩
      exact (fresh.unused worker round conn here).unfailed failing failed
    · exact uncached id
  · rw [cache, Function.update_apply]
    split
    · simp
    · exact uncached id
  · rw [cache]
    exact uncached id

/-- Settling a first attempt takes the connection it failed on out of the cache. -/
theorem Pool.Fresh.uncached_settle (fresh : pool.Fresh config) {conn : Connection Id}
    {reused : Bool} {attempt : Attempt} (failed : attempt.failed = true)
    (here : pool.phase worker = .resolved (.first reused) conn attempt) (id : Id) :
    (settle config.gzip (config.peer worker) (pool.call worker) (.first reused) attempt).cache id ≠
      some conn := by
  have cache : (settle config.gzip (config.peer worker) (pool.call worker) (.first reused)
      attempt).cache = Function.update pool.cache (config.peer worker) none := by
    cases attempt with
    | response body => cases failed
    | beforeSend message => rfl
    | afterSend message => rfl
  rw [cache, Function.update_apply]
  split
  · simp
  · rename_i elsewhere
    intro cached
    have remote := (fresh.held worker conn (congrArg Phase.conn here)).1
    exact elsewhere ((fresh.cached id conn cached).1.symm.trans remote)

variable [DecidableEq Worker]

/-- A step of a request leaves nothing behind before the request is over. -/
theorem Pool.Cleared.update (cleared : pool.Cleared) (fresh : pool.Fresh config)
    (permitted : pool.permits config worker label = true)
    (moved : Moved config.gzip (config.peer worker) (config.name (config.peer worker))
      (config.req worker) (pool.call worker) label call) :
    (pool.update worker label call).Cleared := by
  have own := Pool.own_of_permits permitted
  intro failing conn member
  rcases Pool.mem_failed_update.mp member with old | ⟨same, failure⟩
  · rcases cleared failing conn old with ⟨result, done⟩ | failure | uncached
    · have different : failing ≠ worker := by
        rintro rfl
        exact not_done_of_moved moved own result done
      apply Or.inl
      exact ⟨result, (Pool.phase_update_of_ne different).trans done⟩
    · by_cases same : failing = worker
      · subst same
        rcases Phase.resolved_of_failure failure with ⟨round, attempt, here, failed⟩
        obtain rfl := settle_of_moved moved own here
        cases round with
        | first reused => exact Or.inr (Or.inr (fresh.uncached_settle failed here))
        | second =>
            cases attempt with
            | response body => cases failed
            | beforeSend message => exact Or.inl ⟨_, Pool.phase_update_self⟩
            | afterSend message => exact Or.inl ⟨_, Pool.phase_update_self⟩
      · apply Or.inr
        apply Or.inl
        rw [Pool.phase_update_of_ne same]
        exact failure
    · exact Or.inr (Or.inr (fresh.uncached_update old uncached permitted moved))
  · obtain rfl : failing = worker := same
    apply Or.inr
    apply Or.inl
    rw [Pool.phase_update_self]
    exact failure

theorem Pool.cleared_of_reachable (reachable : Reachable (poolNext config) Pool.initial pool) :
    pool.Cleared := by
  have both : pool.Fresh config ∧ pool.Cleared := by
    refine reachable.invariant (fun pool => pool.Fresh config ∧ pool.Cleared)
      ⟨Pool.fresh_initial, ?_⟩ ?_
    · rintro worker conn ⟨⟩
    · rintro label before after - ⟨fresh, cleared⟩ stepped
      refine ⟨fresh.step stepped, ?_⟩
      cases moved_of_poolNext stepped with
      | request worker label call permitted moved => exact cleared.update fresh permitted moved
      | closeAll =>
          intro failing conn member
          exact Or.inr (Or.inr fun id => (Option.some_ne_none conn).symm)
      | expire worker result =>
          intro failing conn member
          by_cases same : failing = worker
          · subst same
            exact Or.inl ⟨result, Function.update_self ..⟩
          · simp only [Function.update_of_ne same]
            exact cleared failing conn member
  exact both.2

/-- When a request returns an error, every connection on which an attempt of it has
failed is out of the cache, exactly if it is not its second attempt that has failed, on
a connection which is still in the cache. -/
theorem uncached_iff_of_error (reachable : Reachable (poolNext config) Pool.initial pool)
    (stepped : poolNext config (.request worker label) pool = some pool') {message : Text}
    (returned : pool'.phase worker = .done (.error message)) :
    (∀ conn, (worker, conn) ∈ pool'.failed → ∀ id, pool'.cache id ≠ some conn) ↔
      ¬ pool.LeavesBehind config worker := by
  have fresh := Pool.fresh_of_reachable reachable
  cases moved_of_poolNext stepped with
  | request _ _ call permitted moved =>
      have own := Pool.own_of_permits permitted
      rw [Pool.phase_update_self] at returned
      constructor
      · rintro out ⟨conn, attempt, here, failed, cached⟩
        have recorded : (worker, conn) ∈ pool.failed := by
          apply Pool.recorded_of_reachable reachable
          rw [here, Phase.failure, if_pos failed]
        apply out conn (Pool.mem_failed_update.mpr (Or.inl recorded)) (config.peer worker)
        obtain rfl := settle_of_moved moved own here
        cases attempt <;> exact cached
      · intro nothing conn member
        rcases Pool.mem_failed_update.mp member with old | ⟨-, failure⟩
        · rcases Pool.cleared_of_reachable reachable worker conn old with
            ⟨result, done⟩ | failure | uncached
          · exact absurd done (not_done_of_moved moved own result)
          · rcases Phase.resolved_of_failure failure with ⟨round, attempt, here, failed⟩
            obtain rfl := settle_of_moved moved own here
            cases round with
            | first reused => exact fresh.uncached_settle failed here
            | second =>
                intro id cached
                have same : pool.cache id = some conn := by
                  cases attempt <;> exact cached
                have remote := (fresh.held worker conn (congrArg Phase.conn here)).1
                rw [← (fresh.cached id conn same).1, remote] at same
                exact nothing ⟨conn, attempt, here, failed, same⟩
          · exact fresh.uncached_update old uncached permitted moved
        · rw [returned] at failure
          cases failure

end Runs

/-- The labels of a request whose first attempt fails on the connection it found, before
it is sent. -/
def staleLabels (reason : Text) : List (PoolLabel Nat Nat) :=
  dialLabels 0 0 ++ [.request 0 (.readToEnd (.ok [])), .request 0 .proceed, .request 1 .proceed,
    .request 1 .proceed, .request 1 (.openBi (.error reason)), .request 1 .proceed,
    .request 1 .proceed]

/-- A request cannot dial again after its first attempt, and leaves nothing behind. -/
theorem uncached_undialled :
    ∃ pool : Pool Nat Nat, (1, sampleConn 0) ∈ pool.failed ∧
      ∀ conn, (1, conn) ∈ pool.failed → ∀ id, pool.cache id ≠ some conn := by
  have ran : ∃ pool, exec (poolNext (samplePool Nat)) (staleLabels []) Pool.initial = some pool ∧
      pool.phase 1 = .connecting .second ∧
      ∃ pool' message,
        poolNext (samplePool Nat) (.request 1 (.connect (.error []))) pool = some pool' ∧
        pool'.phase 1 = .done (.error message) ∧ pool'.failed = [(1, sampleConn 0)] :=
    ⟨_, rfl, rfl, _, _, rfl, rfl, rfl⟩
  rcases ran with ⟨pool, executed, connecting, pool', message, stepped, returned, failed⟩
  refine ⟨pool', failed ▸ List.mem_cons_self,
    (uncached_iff_of_error (reachable_of_exec executed) stepped returned).mpr ?_⟩
  rintro ⟨conn, attempt, here, -⟩
  cases connecting.symm.trans here

/-- It dials again and fails on the new connection too, and the new connection stays in
the cache. -/
theorem cached_after_error :
    ∃ pool pool' : Pool Nat Nat, ∃ message,
      Reachable (poolNext (samplePool Nat)) Pool.initial pool ∧
        pool.phase 1 = .resolved .second (sampleConn 1) (.beforeSend message) ∧
        poolNext (samplePool Nat) (.request 1 .proceed) pool = some pool' ∧
        pool'.phase 1 = .done (.error message) ∧
        (1, sampleConn 1) ∈ pool'.failed ∧ pool'.cache 7 = some (sampleConn 1) := by
  have ran : ∃ pool, exec (poolNext (samplePool Nat))
      (staleLabels [] ++ [.request 1 (.connect (.ok (sampleConn 1))), .request 1 .proceed,
        .request 1 (.openBi (.error []))]) Pool.initial = some pool ∧
      ∃ pool' message, pool.phase 1 = .resolved .second (sampleConn 1) (.beforeSend message) ∧
        poolNext (samplePool Nat) (.request 1 .proceed) pool = some pool' ∧
        pool'.phase 1 = .done (.error message) ∧
        pool'.failed = [(1, sampleConn 1), (1, sampleConn 0)] ∧
        pool'.cache 7 = some (sampleConn 1) :=
    ⟨_, rfl, _, _, rfl, rfl, rfl, rfl, rfl⟩
  rcases ran with ⟨pool, executed, pool', message, here, stepped, returned, failed, cached⟩
  refine ⟨pool, pool', message, reachable_of_exec executed, here, stepped, returned, ?_, cached⟩
  rw [failed]
  exact List.mem_cons_self

end Quackhole.Dial
