import Quackhole.Dial.Client

/-!
# Requests that share a connection cache

Any number of requests to any peers run at once and use one `ConnCache`.  Each of
them is the machine of a single request; a step of the pool is a step of one of
them, so every use of the cache and every outcome of an await is a step of its own
and the requests interleave in every order.  A request may be dropped at an await
by the timeout around it, and the core may close all connections.

The pool records which attempts have failed, and on which connections.
-/

namespace Quackhole.Dial

open Quackhole.Word
open Quackhole.Compress
open Quackhole.Transition

/-- `Connection`: dialled to a peer, and told from every other one by its number. -/
structure Connection (Id : Type) where
  remote : Id
  number : Nat
  deriving DecidableEq, Repr

/-- What the requests have in common, and what each of them is given. -/
structure PoolConfig (Id Worker : Type) where
  gzip : Codec
  /-- The printed form of an endpoint id. -/
  name : Id → Text
  peer : Worker → Id
  req : Worker → Bytes

/-- What can happen next. -/
inductive PoolLabel (Id Worker : Type) where
  | request (worker : Worker) (label : Label Id (Connection Id))
  /-- The timeout around a request drops it. -/
  | expire (worker : Worker)
  /-- `ConnCache::close_all`. -/
  | closeAll

/-- The cache, and the requests that use it. -/
structure Pool (Id Worker : Type) where
  cache : Id → Option (Connection Id)
  phase : Worker → Phase (Connection Id)
  /-- How many connections have been dialled. -/
  dialled : Nat
  /-- The attempts that have failed, newest first. -/
  failed : List (Worker × Connection Id)

/-- An attempt that did not come to a response. -/
def Attempt.failed : Attempt → Bool
  | .response _ => false
  | _ => true

/-- The connection of an attempt that has just failed. -/
def Phase.failure {Conn : Type} : Phase Conn → Option Conn
  | .resolved _ conn attempt => if attempt.failed then some conn else none
  | _ => none

variable {Id Worker : Type}

/-- An empty cache, and no request begun. -/
def Pool.initial : Pool Id Worker where
  cache := fun _ => none
  phase := fun _ => .begin
  dialled := 0
  failed := []

/-- The pool as one request sees it. -/
def Pool.call (pool : Pool Id Worker) (worker : Worker) : Call Id (Connection Id) :=
  ⟨pool.cache, pool.phase worker, []⟩

section Steps

variable [DecidableEq Id] [DecidableEq Worker]

/-- What the steps of a request can be in a pool: the other requests are in the pool
themselves, and a dial gives a new connection to the peer. -/
def Pool.permits (config : PoolConfig Id Worker) (pool : Pool Id Worker) (worker : Worker) :
    Label Id (Connection Id) → Bool
  | .others _ => false
  | .connect (.ok conn) => conn = ⟨config.peer worker, pool.dialled⟩
  | _ => true

/-- The pool when one request has moved. -/
def Pool.update (pool : Pool Id Worker) (worker : Worker) (label : Label Id (Connection Id))
    (call : Call Id (Connection Id)) : Pool Id Worker where
  cache := call.cache
  phase := Function.update pool.phase worker call.phase
  dialled :=
    match label with
    | .connect (.ok _) => pool.dialled + 1
    | _ => pool.dialled
  failed :=
    match call.phase.failure with
    | some conn => (worker, conn) :: pool.failed
    | none => pool.failed

/-- One step of the pool. -/
def poolNext (config : PoolConfig Id Worker) : LStep (PoolLabel Id Worker) (Pool Id Worker)
  | .request worker label, pool =>
      if pool.permits config worker label then
        let id := config.peer worker
        (next config.gzip id (config.name id) (config.req worker) label (pool.call worker)).map
          (pool.update worker label)
      else none
  | .expire worker, pool =>
      if (pool.phase worker).awaiting then
        let message := withContext "request timed out".toList "deadline has elapsed".toList
        some { pool with phase := Function.update pool.phase worker (.done (.error message)) }
      else none
  | .closeAll, pool => some { pool with cache := fun _ => none }

/-- What a step of a pool is. -/
inductive PoolMoved (config : PoolConfig Id Worker) (pool : Pool Id Worker) :
    PoolLabel Id Worker → Pool Id Worker → Prop
  | request (worker : Worker) (label : Label Id (Connection Id))
      (call : Call Id (Connection Id)) : pool.permits config worker label = true →
      Moved config.gzip (config.peer worker) (config.name (config.peer worker))
        (config.req worker) (pool.call worker) label call →
      PoolMoved config pool (.request worker label) (pool.update worker label call)
  | expire (worker : Worker) (result : Except Text Bytes) :
      PoolMoved config pool (.expire worker)
        { pool with phase := Function.update pool.phase worker (.done result) }
  | closeAll : PoolMoved config pool .closeAll { pool with cache := fun _ => none }

/-- A step is one of these. -/
theorem moved_of_poolNext {config : PoolConfig Id Worker} {label : PoolLabel Id Worker}
    {pool pool' : Pool Id Worker} (stepped : poolNext config label pool = some pool') :
    PoolMoved config pool label pool' := by
  unfold poolNext at stepped
  split at stepped
  · split at stepped
    · rename_i permitted
      rcases Option.map_eq_some_iff.mp stepped with ⟨call, moved, rfl⟩
      exact .request _ _ _ permitted (moved_of_next moved)
    · cases stepped
  · split at stepped
    · cases stepped
      exact .expire _ _
    · cases stepped
  · cases stepped
    exact .closeAll

/-- A step of a request is a step of the pool. -/
theorem poolNext_request {config : PoolConfig Id Worker} {pool : Pool Id Worker} {worker : Worker}
    {label : Label Id (Connection Id)} {call : Call Id (Connection Id)}
    (permitted : pool.permits config worker label = true)
    (stepped : next config.gzip (config.peer worker) (config.name (config.peer worker))
      (config.req worker) label (pool.call worker) = some call) :
    poolNext config (.request worker label) pool = some (pool.update worker label call) := by
  simp only [poolNext, permitted, if_true, stepped, Option.map_some]

/-! ## What a step does to the cache and to the connections in hand -/

/-- The connection a request has in hand. -/
def Phase.conn {Conn : Type} : Phase Conn → Option Conn
  | .storing _ conn | .opening _ conn | .writing _ conn _ | .reading _ conn => some conn
  | .resolved _ conn _ => some conn
  | _ => none

theorem Phase.resolved_of_failure {Conn : Type} {phase : Phase Conn} {conn : Conn}
    (failure : phase.failure = some conn) :
    ∃ round attempt, phase = .resolved round conn attempt ∧ attempt.failed = true := by
  cases phase with
  | resolved round held attempt =>
      simp only [Phase.failure] at failure
      split at failure
      · rename_i failed
        cases failure
        exact ⟨round, attempt, rfl, failed⟩
      · cases failure
  | begin | lookup | connecting | storing | opening | writing | reading | done => cases failure

theorem Phase.conn_of_failure {Conn : Type} {phase : Phase Conn} {conn : Conn}
    (failure : phase.failure = some conn) : phase.conn = some conn := by
  rcases Phase.resolved_of_failure failure with ⟨round, attempt, rfl, -⟩
  rfl

theorem conn_writePhase {Conn : Type} (round : Round) (conn : Conn) (pending : Bytes) :
    (writePhase round conn pending).conn = some conn := by
  unfold writePhase
  split <;> rfl

theorem failure_writePhase {Conn : Type} (round : Round) (conn : Conn) (pending : Bytes) :
    (writePhase round conn pending).failure = none := by
  unfold writePhase
  split <;> rfl

section Moves

variable {Conn : Type} {gzip : Codec} {id : Id} {name : Text} {req : Bytes}
  {label : Label Id Conn} {call call' : Call Id Conn}

/-- Settling takes no connection in hand. -/
theorem conn_settle (call : Call Id Conn) (round : Round) (attempt : Attempt) :
    (settle gzip id call round attempt).phase.conn = none := by
  cases round <;> cases attempt <;> try rfl
  rename_i reused message
  cases reused <;> rfl

/-- A connection in hand was in hand before, or was cached, or has been dialled. -/
theorem conn_of_moved (moved : Moved gzip id name req call label call') {conn : Conn}
    (held : call'.phase.conn = some conn) :
    call.phase.conn = some conn ∨ call.cache id = some conn ∨ label = .connect (.ok conn) := by
  cases moved with
  | others cache => exact Or.inl held
  | begins here | dials round here uncached | unconnected round cause message here => cases held
  | reuses round found here cached =>
      cases held
      exact Or.inr (Or.inl cached)
  | connects round made here =>
      cases held
      exact Or.inr (Or.inr rfl)
  | opens round found here =>
      rw [here]
      exact Or.inl ((conn_writePhase round found req).symm.trans held)
  | accepts round found pending count here =>
      rw [here]
      exact Or.inl ((conn_writePhase round found _).symm.trans held)
  | stores round found here | unopened round found cause message here
  | unwritten round found pending cause message here | reads round found body here
  | unread round found cause message here =>
      rw [here]
      exact Or.inl held
  | settles round found attempt here =>
      rw [conn_settle] at held
      cases held

/-- A connection about to be stored has just been dialled. -/
theorem dialled_of_moved (moved : Moved gzip id name req call label call')
    (own : ∀ cache, label ≠ .others cache) {round : Round} {conn : Conn}
    (storing : call'.phase = .storing round conn) : label = .connect (.ok conn) := by
  cases moved with
  | others cache => exact absurd rfl (own cache)
  | connects dialRound made here =>
      cases storing
      rfl
  | begins here | dials dialRound here uncached | unconnected dialRound cause message here
  | reuses dialRound found here cached | stores dialRound found here
  | unopened dialRound found cause message here
  | unwritten dialRound found pending cause message here | reads dialRound found body here
  | unread dialRound found cause message here => cases storing
  | opens dialRound found here =>
      simp only [Call.enter, writePhase] at storing
      split at storing <;> cases storing
  | accepts dialRound found pending count here =>
      simp only [writePhase] at storing
      split at storing <;> cases storing
  | settles settled found attempt here =>
      have none : (settle gzip id call settled attempt).phase.conn = none :=
        conn_settle call settled attempt
      rw [storing] at none
      cases none

/-- An attempt fails on the connection in hand. -/
theorem failure_of_moved (moved : Moved gzip id name req call label call')
    (own : ∀ cache, label ≠ .others cache) {conn : Conn}
    (failure : call'.phase.failure = some conn) : call.phase.conn = some conn := by
  have held := Phase.conn_of_failure failure
  cases moved with
  | others cache => exact absurd rfl (own cache)
  | begins here | dials round here uncached | unconnected round cause message here
  | reuses round found here cached | connects round made here | stores round found here =>
      cases failure
  | opens round found here =>
      rw [Call.enter, failure_writePhase] at failure
      cases failure
  | accepts round found pending count here =>
      rw [failure_writePhase] at failure
      cases failure
  | unopened round found cause message here
  | unwritten round found pending cause message here | reads round found body here
  | unread round found cause message here =>
      rw [here]
      exact held
  | settles round found attempt here =>
      rw [conn_settle] at held
      cases held

/-- A connection that was dialled is stored without awaiting anything. -/
theorem proceed_of_storing (moved : Moved gzip id name req call label call')
    (own : ∀ cache, label ≠ .others cache) {round : Round} {conn : Conn}
    (storing : call.phase = .storing round conn) : label = .proceed := by
  cases moved with
  | others cache => exact absurd rfl (own cache)
  | begins | reuses | dials | stores | settles => rfl
  | connects _ _ here | unconnected _ _ _ here | opens _ _ here | unopened _ _ _ _ here
  | accepts _ _ _ _ here | unwritten _ _ _ _ _ here | reads _ _ _ here
  | unread _ _ _ _ here => cases storing.symm.trans here

/-- How a step of a request uses the cache: it stores the connection it has dialled,
it invalidates after a first attempt that failed, or it leaves the cache alone. -/
theorem cache_of_moved (moved : Moved gzip id name req call label call')
    (own : ∀ cache, label ≠ .others cache) :
    (∃ round conn, call.phase = .storing round conn ∧
        call'.cache = Function.update call.cache id (some conn)) ∨
      (∃ reused conn attempt, call.phase = .resolved (.first reused) conn attempt ∧
        attempt.failed = true ∧ call'.cache = Function.update call.cache id none) ∨
      call'.cache = call.cache := by
  cases moved with
  | others cache => exact absurd rfl (own cache)
  | stores round conn here => exact Or.inl ⟨round, conn, here, rfl⟩
  | begins here | dials round here uncached | unconnected round cause message here
  | reuses round found here cached | connects round made here | opens round found here
  | accepts round found pending count here | unopened round found cause message here
  | unwritten round found pending cause message here | reads round found body here
  | unread round found cause message here => exact Or.inr (Or.inr rfl)
  | settles round conn attempt here =>
      cases round with
      | second => cases attempt <;> exact Or.inr (Or.inr rfl)
      | first reused =>
          cases attempt with
          | response body => exact Or.inr (Or.inr rfl)
          | beforeSend message => exact Or.inr (Or.inl ⟨reused, conn, _, here, rfl, rfl⟩)
          | afterSend message => exact Or.inr (Or.inl ⟨reused, conn, _, here, rfl, rfl⟩)

/-- A resolved attempt is settled next. -/
theorem settle_of_moved (moved : Moved gzip id name req call label call')
    (own : ∀ cache, label ≠ .others cache) {round : Round} {conn : Conn} {attempt : Attempt}
    (resolved : call.phase = .resolved round conn attempt) :
    call' = settle gzip id call round attempt := by
  cases moved with
  | others cache => exact absurd rfl (own cache)
  | settles _ _ _ here =>
      cases resolved.symm.trans here
      rfl
  | begins here | reuses _ _ here | dials _ here | connects _ _ here | unconnected _ _ _ here
  | stores _ _ here | opens _ _ here | unopened _ _ _ _ here | accepts _ _ _ _ here
  | unwritten _ _ _ _ _ here | reads _ _ _ here | unread _ _ _ _ here =>
      cases resolved.symm.trans here

/-- A request that is over does not move. -/
theorem not_done_of_moved (moved : Moved gzip id name req call label call')
    (own : ∀ cache, label ≠ .others cache) (result : Except Text Bytes) :
    call.phase ≠ .done result := by
  intro done
  cases moved with
  | others cache => exact absurd rfl (own cache)
  | begins here | reuses _ _ here | dials _ here | connects _ _ here | unconnected _ _ _ here
  | stores _ _ here | opens _ _ here | unopened _ _ _ _ here | accepts _ _ _ _ here
  | unwritten _ _ _ _ _ here | reads _ _ _ here | unread _ _ _ _ here | settles _ _ _ here =>
      cases done.symm.trans here

end Moves

end Steps

/-! ## Every connection is dialled once, to one peer -/

/-- No one but this request knows the connection. -/
structure Pool.Unused (pool : Pool Id Worker) (worker : Worker) (conn : Connection Id) : Prop where
  uncached : ∀ id, pool.cache id ≠ some conn
  unfailed : ∀ other, (other, conn) ∉ pool.failed
  unheld : ∀ other, other ≠ worker → (pool.phase other).conn ≠ some conn

/-- The connections in the pool have been dialled, to the peers they are filed under
and used for, and one that has not been stored is not in use. -/
structure Pool.Fresh (config : PoolConfig Id Worker) (pool : Pool Id Worker) : Prop where
  held : ∀ worker conn, (pool.phase worker).conn = some conn →
    conn.remote = config.peer worker ∧ conn.number < pool.dialled
  cached : ∀ id conn, pool.cache id = some conn → conn.remote = id ∧ conn.number < pool.dialled
  failed : ∀ worker conn, (worker, conn) ∈ pool.failed → conn.number < pool.dialled
  unused : ∀ worker round conn, pool.phase worker = .storing round conn →
    pool.Unused worker conn

variable {config : PoolConfig Id Worker} {pool pool' : Pool Id Worker}

theorem Pool.fresh_initial : (Pool.initial : Pool Id Worker).Fresh config := by
  constructor
  · rintro worker conn ⟨⟩
  · rintro id conn ⟨⟩
  · rintro worker conn ⟨⟩
  · rintro worker round conn ⟨⟩

/-- The attempts that have just failed are on record. -/
def Pool.Recorded (pool : Pool Id Worker) : Prop :=
  ∀ worker conn, (pool.phase worker).failure = some conn → (worker, conn) ∈ pool.failed

section Steps

variable {worker : Worker} {label : Label Id (Connection Id)} {call : Call Id (Connection Id)}

section Failures

variable [DecidableEq Worker]

theorem Pool.dialled_le_update : pool.dialled ≤ (pool.update worker label call).dialled := by
  simp only [Pool.update]
  split <;> simp

@[simp]
theorem Pool.phase_update_self : (pool.update worker label call).phase worker = call.phase :=
  Function.update_self ..

@[simp]
theorem Pool.cache_update : (pool.update worker label call).cache = call.cache :=
  rfl

theorem Pool.phase_update_of_ne {other : Worker} (different : other ≠ worker) :
    (pool.update worker label call).phase other = pool.phase other :=
  Function.update_of_ne different ..

theorem Pool.mem_failed_update {pair : Worker × Connection Id} :
    pair ∈ (pool.update worker label call).failed ↔
      pair ∈ pool.failed ∨ pair.1 = worker ∧ call.phase.failure = some pair.2 := by
  simp only [Pool.update]
  cases failure : call.phase.failure with
  | none => simp
  | some conn =>
      rcases pair with ⟨other, found⟩
      simp only [List.mem_cons, Prod.mk.injEq, Option.some.injEq]
      rw [or_comm, eq_comm (a := found)]

/-- The failure of an attempt is recorded as it happens. -/
theorem Pool.Recorded.update (recorded : pool.Recorded) :
    (pool.update worker label call).Recorded := by
  intro other conn failure
  apply Pool.mem_failed_update.mpr
  by_cases same : other = worker
  · subst same
    rw [Pool.phase_update_self] at failure
    exact Or.inr ⟨rfl, failure⟩
  · rw [Pool.phase_update_of_ne same] at failure
    exact Or.inl (recorded other conn failure)

end Failures

variable [DecidableEq Id]

theorem Pool.own_of_permits (permitted : pool.permits config worker label = true) :
    ∀ cache, label ≠ .others cache := by
  rintro cache rfl
  cases permitted

/-- A connection a request gets in hand by a step was in its hand or cached, or is the
next one to be dialled. -/
theorem Pool.Fresh.conn_of_moved (fresh : pool.Fresh config)
    (permitted : pool.permits config worker label = true)
    (moved : Moved config.gzip (config.peer worker) (config.name (config.peer worker))
      (config.req worker) (pool.call worker) label call)
    {conn : Connection Id} (held : call.phase.conn = some conn) :
    ((pool.phase worker).conn = some conn ∨ pool.cache (config.peer worker) = some conn) ∧
        conn.remote = config.peer worker ∧ conn.number < pool.dialled ∨
      label = .connect (.ok conn) ∧ conn = ⟨config.peer worker, pool.dialled⟩ := by
  rcases Dial.conn_of_moved moved held with before | cached | rfl
  · exact Or.inl ⟨Or.inl before, fresh.held worker conn before⟩
  · exact Or.inl ⟨Or.inr cached, fresh.cached _ conn cached⟩
  · exact Or.inr ⟨rfl, of_decide_eq_true permitted⟩

variable [DecidableEq Worker]

/-- A connection that is new to the pool stays unused by the others, when another
request moves. -/
theorem Pool.Unused.update {other : Worker} {conn : Connection Id} (fresh : pool.Fresh config)
    (unused : pool.Unused other conn) (known : conn.number < pool.dialled)
    (different : worker ≠ other) (permitted : pool.permits config worker label = true)
    (moved : Moved config.gzip (config.peer worker) (config.name (config.peer worker))
      (config.req worker) (pool.call worker) label call) :
    (pool.update worker label call).Unused other conn := by
  have own := Pool.own_of_permits permitted
  constructor
  · intro id
    rcases cache_of_moved moved own with ⟨round, stored, here, cache⟩ | ⟨_, _, _, _, _, cache⟩ | cache
    · simp only [Pool.update, cache, Function.update_apply]
      split
      · rintro ⟨⟩
        exact unused.unheld worker different (congrArg Phase.conn here)
      · exact unused.uncached id
    · simp only [Pool.update, cache, Function.update_apply]
      split
      · simp
      · exact unused.uncached id
    · simp only [Pool.update, cache]
      exact unused.uncached id
  · intro failing member
    rcases Pool.mem_failed_update.mp member with old | ⟨-, failure⟩
    · exact unused.unfailed failing old
    · exact unused.unheld worker different (failure_of_moved moved own failure)
  · intro holder apart
    by_cases same : holder = worker
    · subst same
      rw [Pool.phase_update_self]
      intro held
      rcases fresh.conn_of_moved permitted moved held with ⟨before | cached, -⟩ | ⟨-, made⟩
      · exact unused.unheld holder different before
      · exact unused.uncached _ cached
      · rw [made] at known
        exact Nat.lt_irrefl _ known
    · rw [Pool.phase_update_of_ne same]
      exact unused.unheld holder apart

/-- Every step of a request keeps the connections apart. -/
theorem Pool.Fresh.update (fresh : pool.Fresh config)
    (permitted : pool.permits config worker label = true)
    (moved : Moved config.gzip (config.peer worker) (config.name (config.peer worker))
      (config.req worker) (pool.call worker) label call) :
    (pool.update worker label call).Fresh config := by
  have own := Pool.own_of_permits permitted
  have more : pool.dialled ≤ (pool.update worker label call).dialled := Pool.dialled_le_update
  constructor
  · intro holder conn held
    by_cases same : holder = worker
    · subst same
      rw [Pool.phase_update_self] at held
      rcases fresh.conn_of_moved permitted moved held with ⟨-, remote, known⟩ | ⟨rfl, rfl⟩
      · exact ⟨remote, Nat.lt_of_lt_of_le known more⟩
      · exact ⟨rfl, Nat.lt_succ_self _⟩
    · rw [Pool.phase_update_of_ne same] at held
      rcases fresh.held holder conn held with ⟨remote, known⟩
      exact ⟨remote, Nat.lt_of_lt_of_le known more⟩
  · intro id conn cached
    have known : conn.remote = id ∧ conn.number < pool.dialled := by
      rcases cache_of_moved moved own with ⟨round, stored, here, cache⟩ | ⟨_, _, _, _, _, cache⟩ |
        cache
      · simp only [Pool.update, cache, Function.update_apply] at cached
        split at cached
        · rename_i peer
          cases cached
          rw [peer]
          exact fresh.held worker conn (congrArg Phase.conn here)
        · exact fresh.cached id conn cached
      · simp only [Pool.update, cache, Function.update_apply] at cached
        split at cached
        · cases cached
        · exact fresh.cached id conn cached
      · simp only [Pool.update, cache] at cached
        exact fresh.cached id conn cached
    exact ⟨known.1, Nat.lt_of_lt_of_le known.2 more⟩
  · intro failing conn member
    apply Nat.lt_of_lt_of_le _ more
    rcases Pool.mem_failed_update.mp member with old | ⟨-, failure⟩
    · exact fresh.failed failing conn old
    · exact (fresh.held worker conn (failure_of_moved moved own failure)).2
  · intro storer round conn storing
    by_cases same : storer = worker
    · subst same
      rw [Pool.phase_update_self] at storing
      have made := dialled_of_moved moved own storing
      subst made
      have next : conn = ⟨config.peer storer, pool.dialled⟩ := of_decide_eq_true permitted
      have large : pool.dialled ≤ conn.number := by rw [next]
      constructor
      · intro id
        have cache : call.cache = pool.cache := by cases moved; rfl
        simp only [Pool.update, cache]
        intro cached
        exact absurd (fresh.cached id conn cached).2 (Nat.not_lt.mpr large)
      · intro failing member
        rcases Pool.mem_failed_update.mp member with old | ⟨-, failure⟩
        · exact absurd (fresh.failed failing conn old) (Nat.not_lt.mpr large)
        · rw [storing] at failure
          cases failure
      · intro holder apart
        rw [Pool.phase_update_of_ne apart]
        intro held
        exact absurd (fresh.held holder conn held).2 (Nat.not_lt.mpr large)
    · rw [Pool.phase_update_of_ne same] at storing
      exact (fresh.unused storer round conn storing).update fresh
        (fresh.held storer conn (congrArg Phase.conn storing)).2 (Ne.symm same) permitted moved

/-- Every step keeps the connections apart. -/
theorem Pool.Fresh.step {label : PoolLabel Id Worker} (fresh : pool.Fresh config)
    (stepped : poolNext config label pool = some pool') : pool'.Fresh config := by
  cases moved_of_poolNext stepped with
  | request worker label call permitted moved => exact fresh.update permitted moved
  | expire worker result =>
      have quiet : ∀ other conn,
          (Function.update pool.phase worker (.done result) other).conn = some conn →
            (pool.phase other).conn = some conn := by
        intro other conn held
        rw [Function.update_apply] at held
        split at held
        · cases held
        · exact held
      constructor
      · exact fun other conn held => fresh.held other conn (quiet other conn held)
      · exact fresh.cached
      · exact fresh.failed
      · intro other round conn storing
        have before : pool.phase other = .storing round conn := by
          simp only [Function.update_apply] at storing
          split at storing
          · cases storing
          · exact storing
        rcases fresh.unused other round conn before with ⟨uncached, unfailed, unheld⟩
        exact ⟨uncached, unfailed, fun holder apart held =>
          unheld holder apart (quiet holder conn held)⟩
  | closeAll =>
      constructor
      · exact fresh.held
      · rintro id conn ⟨⟩
      · exact fresh.failed
      · intro other round conn storing
        rcases fresh.unused other round conn storing with ⟨-, unfailed, unheld⟩
        constructor
        · rintro id ⟨⟩
        · exact unfailed
        · exact unheld

/-- The connections are apart at every point of every run. -/
theorem Pool.fresh_of_reachable (reachable : Reachable (poolNext config) Pool.initial pool) :
    pool.Fresh config :=
  reachable.invariant (Pool.Fresh config) Pool.fresh_initial
    fun _ _ _ _ fresh stepped => fresh.step stepped

theorem Pool.recorded_of_reachable (reachable : Reachable (poolNext config) Pool.initial pool) :
    pool.Recorded := by
  refine reachable.invariant Pool.Recorded ?_ fun label before after _ recorded stepped => ?_
  · rintro worker conn ⟨⟩
  · cases moved_of_poolNext stepped with
    | request worker label call permitted moved => exact recorded.update
    | closeAll => exact recorded
    | expire worker result =>
        intro other conn failure
        simp only [Function.update_apply] at failure
        split at failure
        · cases failure
        · exact recorded other conn failure

end Steps

end Quackhole.Dial
