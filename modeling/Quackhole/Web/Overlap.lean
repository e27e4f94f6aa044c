import Quackhole.Web.Tasks

/-!
# Overlapping calls

An attach looks for its peer in the list and chooses a name at one point, and enters
the list at another; where it fails it drops a secret by name.  Other calls run in
between.  The list and the secrets are right as long as no two attaches are between
the two points for one peer, no secret is dropped by name that belongs to another call
by then, and no catalog goes whose name was chosen anew.
-/

namespace Quackhole.Web.Remotes

open Quackhole.Word Quackhole.Ticket Quackhole.Transition

namespace Task

variable (task : Task)

/-- The record of an attach that is past its check and may still enter the list. -/
def claim : Option Record :=
  match task.phase with
  | .creating _ record | .attaching _ record => some record
  | _ => none

/-- The record of an attach whose ATTACH was executed and not refused. -/
def attached : Option Record :=
  match task.phase, task.reply with
  | .attaching _ record, some (some _) => some record
  | _, _ => none

/-- The record of an attach whose ATTACH is still to come, or was refused. -/
def waiting : Option Record :=
  match task.phase, task.reply with
  | .creating _ record, _ | .attaching _ record, none | .attaching _ record, some none =>
      some record
  | _, _ => none

/-- The record whose DETACH a call of `detach` awaits. -/
def leaving : Option Record :=
  match task.phase with
  | .detaching record => some record
  | _ => none

/-- Is the CREATE SECRET of an attach still to come, or was it refused? -/
def unfiled : Bool :=
  match task.phase, task.reply with
  | .creating _ _, none | .creating _ _, some none => true
  | _, _ => false

end Task

namespace World

section Property

variable {Id Url : Type} (iroh : Iroh Id Url) (codec : TicketCodec) (world : World)

/-- A record is that of an attach call whose ticket names the peer. -/
def Backed (index : Nat) (peer : Peer) (record : Record) : Prop :=
  ∃ ticket name, world.tasks[index]?.map Task.call = some (.attach ticket name) ∧
    Peer.parseTicket iroh codec ticket = .ok peer ∧ record.endpointId = peer.endpointId ∧
    record.secretName = peer.secretName

/-- Was `detach` called for the record of a call? -/
def Detached (index : Nat) : Prop :=
  ∃ (other : Nat) (record : Record),
    world.tasks[other]?.map Task.call = some (.detach (index, record))

/-- The names are distinct, and so are the peers, and a remote that nobody detached
still has the token of its ticket filed. -/
structure Sound : Prop where
  names : world.session.names.Nodup
  peers : (world.session.remotes.map Record.endpointId).Nodup
  secrets : ∀ entry ∈ world.listed, ∃ peer, world.Backed iroh codec entry.1 peer entry.2 ∧
    (peer.token ≠ [] → ¬ world.Detached entry.1 →
      world.db.secrets (secretMarker ++ entry.2.endpointId) = some ⟨peer.token, peer.address⟩)

/-- The peer of an attach that is about to pass its check. -/
def opensFor (index : Nat) : Option Peer :=
  match world.tasks[index]?.map Task.call with
  | some (.attach ticket name) =>
      match world.opening iroh codec ticket name with
      | .ok (peer, _) => some peer
      | .error _ => none
  | _ => none

/-- The catalog that goes when the first statement that waits is executed. -/
def goesNext : Option Text :=
  match (world.queue.head?.bind (world.tasks[·]?)).bind fun task => task.phase.statement with
  | some (.detach name) => if world.db.names.contains name then some name else none
  | _ => none

/-- No other attach is in progress for a peer, and no `detach` that has yet to drop its
secret. -/
def Alone (peer : Peer) : Prop :=
  (∀ task ∈ world.tasks, ∀ record ∈ task.claim, record.endpointId ≠ peer.endpointId) ∧
    ∀ task ∈ world.tasks, ∀ record ∈ task.leaving, record.secretName ≠ peer.secretName

/-- The secret of an object is not that of another call's record. -/
def Owned (object : Nat × Record) : Prop :=
  (∀ entry ∈ world.listed, entry.2.secretName = object.2.secretName → entry.1 = object.1) ∧
    ∀ entry ∈ world.tasks.zipIdx, ∀ record ∈ entry.1.claim,
      record.secretName = object.2.secretName → entry.2 = object.1

/-- No attach in progress has chosen a name. -/
def Unchosen (name : Text) : Prop :=
  ∀ task ∈ world.tasks, ∀ record ∈ task.claim, record.name ≠ name

/-- The condition on overlapping calls, at each event. -/
def Apart (event : Event) : Prop :=
  match event with
  | .call (.detach object) => world.Owned object
  | .parsed index none => ∀ peer ∈ world.opensFor iroh codec index, world.Alone peer
  | .execute true => ∀ name ∈ world.goesNext, world.Unchosen name
  | _ => True

instance (peer : Peer) : Decidable (world.Alone peer) :=
  inferInstanceAs (Decidable (_ ∧ _))

instance (object : Nat × Record) : Decidable (world.Owned object) :=
  inferInstanceAs (Decidable (_ ∧ _))

instance (name : Text) : Decidable (world.Unchosen name) :=
  inferInstanceAs (Decidable (∀ task ∈ world.tasks, ∀ record ∈ task.claim, record.name ≠ name))

instance (event : Event) : Decidable (world.Apart iroh codec event) :=
  match event with
  | .call (.detach object) => inferInstanceAs (Decidable (world.Owned object))
  | .parsed index none =>
      inferInstanceAs (Decidable (∀ peer ∈ world.opensFor iroh codec index, world.Alone peer))
  | .execute true =>
      inferInstanceAs (Decidable (∀ name ∈ world.goesNext, world.Unchosen name))
  | .call (.attach _ _) | .call .reconcile | .call (.typed _) | .parsed _ (some _)
  | .execute false | .resume _ => isTrue trivial

end Property

/-! ## Which records are whose -/

section Roles

variable (world : World)

/-- A call has a record in a role. -/
def Role (role : Task → Option Record) (index : Nat) (record : Record) : Prop :=
  ∃ task, world.tasks[index]? = some task ∧ role task = some record

/-- A record is listed or may be. -/
def Claims (index : Nat) (record : Record) : Prop :=
  (index, record) ∈ world.listed ∨ world.Role Task.claim index record

/-- A record is listed or will be. -/
def Holds (index : Nat) (record : Record) : Prop :=
  (index, record) ∈ world.listed ∨ world.Role Task.attached index record

def Unfiled (index : Nat) : Prop :=
  ∃ task, world.tasks[index]? = some task ∧ task.unfiled = true

/-- One call goes on, or a new one is made. -/
structure Changes (index : Nat) (task : Task) (later : World) : Prop where
  tasks : ∀ other, later.tasks[other]? = if other = index then some task else world.tasks[other]?
  call : ∀ old, world.tasks[index]? = some old → task.call = old.call

end Roles

section Changes

variable {Id Url : Type} {iroh : Iroh Id Url} {codec : TicketCodec} {world later : World}
  {index : Nat} {task : Task}

theorem claim_of_attached {record : Record} (attached : task.attached = some record) :
    task.claim = some record := by
  rw [Task.attached] at attached
  split at attached
  · rename_i awaits _
    rw [Task.claim, awaits]
    exact attached
  · cases attached

theorem claim_of_waiting {record : Record} (waiting : task.waiting = some record) :
    task.claim = some record := by
  rw [Task.waiting] at waiting
  rw [Task.claim]
  split at waiting
  · rename_i awaits
    rw [awaits]
    exact waiting
  · rename_i awaits _
    rw [awaits]
    exact waiting
  · rename_i awaits _
    rw [awaits]
    exact waiting
  · cases waiting

theorem Role.mono {first second : Task → Option Record} {index : Nat} {record : Record}
    (has : world.Role first index record)
    (weaker : ∀ task, first task = some record → second task = some record) :
    world.Role second index record := by
  rcases has with ⟨task, found, role⟩
  exact ⟨task, found, weaker task role⟩

theorem Holds.claims {index : Nat} {record : Record} (holds : world.Holds index record) :
    world.Claims index record :=
  holds.imp_right fun attached => attached.mono fun _ => claim_of_attached

theorem Changes.role_self (changes : world.Changes index task later)
    {role : Task → Option Record} {record : Record} :
    later.Role role index record ↔ role task = some record := by
  rw [Role, changes.tasks, if_pos rfl]
  constructor
  · rintro ⟨_, found, has⟩
    cases found
    exact has
  · intro has
    exact ⟨task, rfl, has⟩

theorem Changes.role_of_ne (changes : world.Changes index task later)
    {role : Task → Option Record} {other : Nat} {record : Record} (different : other ≠ index) :
    later.Role role other record ↔ world.Role role other record := by
  rw [Role, Role, changes.tasks, if_neg different]

/-- A role that the changed call has only where it had it before. -/
theorem Changes.role (changes : world.Changes index task later) {role : Task → Option Record}
    (old : ∀ record, role task = some record → world.Role role index record) {other : Nat}
    {record : Record} (has : later.Role role other record) : world.Role role other record := by
  by_cases same : other = index
  · rw [same] at has ⊢
    exact old record (changes.role_self.mp has)
  · exact (changes.role_of_ne same).mp has

/-- A call that has no record adds none. -/
theorem Changes.claims (changes : world.Changes index task later) (noClaim : task.claim = none)
    (listed : later.listed = world.listed) {other : Nat} {record : Record}
    (claims : later.Claims other record) : world.Claims other record := by
  rcases claims with member | has
  · rw [listed] at member
    exact Or.inl member
  · apply Or.inr
    apply changes.role _ has
    intro record claim
    cases noClaim.symm.trans claim

theorem Changes.unfiled_of_ne (changes : world.Changes index task later) {other : Nat}
    (different : other ≠ index) : later.Unfiled other ↔ world.Unfiled other := by
  rw [Unfiled, Unfiled, changes.tasks, if_neg different]

theorem Changes.unfiled_self (changes : world.Changes index task later) :
    later.Unfiled index ↔ task.unfiled = true := by
  rw [Unfiled, changes.tasks, if_pos rfl]
  constructor
  · rintro ⟨_, found, unfiled⟩
    cases found
    exact unfiled
  · intro unfiled
    exact ⟨task, rfl, unfiled⟩

/-- A call stays what it is. -/
theorem Changes.call_eq (changes : world.Changes index task later) {other : Nat}
    {call : Call (Nat × Record)} (made : world.tasks[other]?.map Task.call = some call) :
    later.tasks[other]?.map Task.call = some call := by
  rw [changes.tasks]
  split
  · rename_i same
    subst same
    rcases Option.map_eq_some_iff.mp made with ⟨old, found, rfl⟩
    exact congrArg some (changes.call old found)
  · exact made

theorem Changes.backed (changes : world.Changes index task later) {other : Nat} {peer : Peer}
    {record : Record} (backed : world.Backed iroh codec other peer record) :
    later.Backed iroh codec other peer record := by
  rcases backed with ⟨ticket, name, made, rest⟩
  exact ⟨ticket, name, changes.call_eq made, rest⟩

theorem Changes.detached (changes : world.Changes index task later) {other : Nat}
    (detached : world.Detached other) : later.Detached other := by
  rcases detached with ⟨leaving, record, made⟩
  exact ⟨leaving, record, changes.call_eq made⟩

theorem Backed.unique {index : Nat} {first second : Peer} {record : Record}
    (backed : world.Backed iroh codec index first record)
    (backed' : world.Backed iroh codec index second record) : first = second := by
  rcases backed with ⟨ticket, name, made, read, _⟩
  rcases backed' with ⟨ticket', name', made', read', _⟩
  cases made.symm.trans made'
  exact Except.ok.inj (read.symm.trans read')

theorem changes_spawn (call : Call (Nat × Record)) :
    world.Changes world.tasks.length { call := call, phase := firstPhase call }
      (world.spawn call) where
  tasks other := by
    rw [spawn, List.getElem?_append]
    split
    · rename_i old
      rw [if_neg (Nat.ne_of_lt old)]
    · rename_i new
      by_cases last : other = world.tasks.length
      · rw [if_pos last, last, Nat.sub_self]
        rfl
      · have beyond : world.tasks.length < other :=
          Nat.lt_of_le_of_ne (Nat.le_of_not_lt new) (Ne.symm last)
        rw [if_neg last, List.getElem?_eq_none (Nat.le_of_lt beyond),
          List.getElem?_eq_none (Nat.le_sub_of_add_le' (Nat.succ_le_of_lt beyond))]
  call old found := by
    rw [List.getElem?_eq_none (Nat.le_refl _)] at found
    cases found

theorem changes_set {old : Task} (found : world.tasks[index]? = some old) (phase : Phase)
    (reply : Option (Option Reply)) (listed : List (Nat × Record)) (db : Database)
    (queue : List Nat) :
    world.Changes index ⟨old.call, phase, reply⟩
      ⟨world.localName, listed, db, world.tasks.set index ⟨old.call, phase, reply⟩, queue⟩ where
  tasks other := by
    rw [List.getElem?_set]
    split
    · rename_i here
      rw [if_pos here.symm, if_pos (List.getElem?_eq_some_iff.mp found).1]
    · rename_i elsewhere
      rw [if_neg (Ne.symm elsewhere)]
  call old' found' := by
    cases found.symm.trans found'
    rfl

end Changes

/-! ## What the calls keep -/

section Invariants

variable {Id Url : Type} (iroh : Iroh Id Url) (codec : TicketCodec) (world : World)

/-- Every record is backed by a call of its own and by a peer of its own. -/
structure Roster : Prop where
  backed : ∀ {index record}, world.Claims index record →
    ∃ peer, world.Backed iroh codec index peer record
  ended : ∀ entry ∈ world.listed, ∃ task, world.tasks[entry.1]? = some task ∧
    task.claim = none ∧ task.phase ≠ .parsing
  single : (world.listed.map Prod.fst).Nodup
  peers : ∀ {index other first second}, world.Claims index first → world.Claims other second →
    first.endpointId = second.endpointId → index = other

/-- The catalog of a record is there while another call waits to attach under its name. -/
structure Naming : Prop where
  notLocal : ∀ {index record}, world.Claims index record → record.name ≠ world.localName
  distinct : ∀ {index other first second}, world.Holds index first → world.Holds other second →
    first.name = second.name → index = other
  held : ∀ {index other first second}, world.Holds index first →
    world.Role Task.waiting other second → first.name = second.name → first.name ∈ world.db.names
  here : ∀ {index record}, world.Role Task.attached index record → record.name ∈ world.db.names

/-- A record with a token, which nobody detached. -/
structure Owner (index : Nat) (peer : Peer) (record : Record) : Prop where
  claims : world.Claims index record
  backed : world.Backed iroh codec index peer record
  token : peer.token ≠ []
  undetached : ¬ world.Detached index

/-- The secret of a record is there once it was created, and whoever drops a secret of
its name does so before. -/
structure Filing : Prop where
  created : ∀ {index : Nat} {task : Task} {peer record}, world.tasks[index]? = some task →
    task.phase = .creating peer record → world.Backed iroh codec index peer record
  queued : ∀ index ∈ world.queue, ∃ task, world.tasks[index]? = some task ∧ task.reply = none ∧
    task.phase.statement ≠ none
  nodup : world.queue.Nodup
  leaving : ∀ {index other gone record}, world.Role Task.leaving index gone →
    world.Claims other record → record.secretName = gone.secretName → world.Detached other
  drops : ∀ {index other : Nat} {task : Task} {peer record}, index ∈ world.queue →
    world.tasks[index]? = some task → task.phase.statement = some (.dropSecret record.secretName) →
    world.Owner iroh codec other peer record →
      List.Sublist [index, other] world.queue ∧ world.Unfiled other
  kept : ∀ {index peer record}, world.Owner iroh codec index peer record →
    ¬ world.Unfiled index →
      world.db.secrets record.secretName = some ⟨peer.token, peer.address⟩

structure Inv : Prop where
  roster : world.Roster iroh codec
  naming : world.Naming
  filing : world.Filing iroh codec

end Invariants

section Roster

variable {Id Url : Type} {iroh : Iroh Id Url} {codec : TicketCodec} {world later : World}
  {index : Nat} {task : Task}

/-- A call has one record. -/
theorem Roster.unique (roster : world.Roster iroh codec) {index : Nat} {first second : Record}
    (claims : world.Claims index first) (claims' : world.Claims index second) :
    first = second := by
  rcases claims with listed | ⟨task, found, claim⟩
  · rcases claims' with listed' | ⟨task, found, claim⟩
    · have same := List.inj_on_of_nodup_map roster.single listed listed' rfl
      exact congrArg Prod.snd same
    · rcases roster.ended _ listed with ⟨task', found', ended, _⟩
      cases found.symm.trans found'
      cases claim.symm.trans ended
  · rcases claims' with listed | ⟨task', found', claim'⟩
    · rcases roster.ended _ listed with ⟨task', found', ended, _⟩
      cases found.symm.trans found'
      cases claim.symm.trans ended
    · cases found.symm.trans found'
      exact Option.some.inj (claim.symm.trans claim')

theorem Roster.secretName (roster : world.Roster iroh codec) {record : Record}
    (claims : world.Claims index record) : record.secretName = secretMarker ++ record.endpointId := by
  rcases roster.backed claims with ⟨peer, _, _, _, _, same, secret⟩
  rw [secret, same]
  rfl

/-- A secret belongs to one call. -/
theorem Roster.secrets (roster : world.Roster iroh codec) {other : Nat} {first second : Record}
    (claims : world.Claims index first) (claims' : world.Claims other second)
    (same : first.secretName = second.secretName) : index = other := by
  rw [roster.secretName claims, roster.secretName claims'] at same
  exact roster.peers claims claims' (List.append_cancel_left same)

theorem Roster.fewer (roster : world.Roster iroh codec) (changes : world.Changes index task later)
    (claims : ∀ {other record}, later.Claims other record → world.Claims other record)
    (ended : ∀ entry ∈ later.listed, ∃ task, later.tasks[entry.1]? = some task ∧
      task.claim = none ∧ task.phase ≠ .parsing)
    (single : (later.listed.map Prod.fst).Nodup) : later.Roster iroh codec where
  backed has := by
    rcases roster.backed (claims has) with ⟨peer, backed⟩
    exact ⟨peer, changes.backed backed⟩
  ended := ended
  single := single
  peers first second := roster.peers (claims first) (claims second)

theorem Naming.fewer (naming : world.Naming)
    (claims : ∀ {other record}, later.Claims other record → world.Claims other record)
    (holds : ∀ {other record}, later.Holds other record → world.Holds other record)
    (waits : ∀ {other record}, later.Role Task.waiting other record →
      world.Role Task.waiting other record)
    (attached : ∀ {other record}, later.Role Task.attached other record →
      world.Role Task.attached other record)
    (sameName : later.localName = world.localName) (names : world.db.names ⊆ later.db.names) :
    later.Naming where
  notLocal has := by
    rw [sameName]
    exact naming.notLocal (claims has)
  distinct first second := naming.distinct (holds first) (holds second)
  held first second same := names (naming.held (holds first) (waits second) same)
  here has := names (naming.here (attached has))

theorem Owner.fewer (roster : world.Roster iroh codec) (changes : world.Changes index task later)
    {other : Nat} {peer : Peer} {record : Record}
    (claims : world.Claims other record)
    (owner : later.Owner iroh codec other peer record) : world.Owner iroh codec other peer record := by
  rcases roster.backed claims with ⟨peer', backed⟩
  obtain rfl := (changes.backed backed).unique owner.backed
  exact ⟨claims, backed, owner.token, mt changes.detached owner.undetached⟩

end Roster

section GoOn

variable {Id Url : Type} {iroh : Iroh Id Url} {codec : TicketCodec} {world later : World}
  {index : Nat} {task : Task}

theorem mem_queueWith {other : Nat} {phase : Phase} :
    other ∈ world.queueWith index phase ↔
      other ∈ world.queue ∨ other = index ∧ phase.statement ≠ none := by
  rw [queueWith]
  split
  · rename_i issued
    rw [List.mem_append, List.mem_singleton, issued]
    exact or_congr_right (and_iff_left (Option.some_ne_none _)).symm
  · rename_i nothing
    rw [nothing]
    exact (or_iff_left fun both => both.2 rfl).symm

theorem queue_sublist_queueWith (phase : Phase) :
    world.queue.Sublist (world.queueWith index phase) := by
  rw [queueWith]
  split
  · exact List.sublist_append_left _ _
  · exact List.Sublist.refl _

/-- Whoever waits, waits before the call that is going into a phase. -/
theorem pair_sublist_queueWith {other : Nat} {phase : Phase} (waits : other ∈ world.queue)
    (issued : phase.statement ≠ none) :
    List.Sublist [other, index] (world.queueWith index phase) := by
  rw [queueWith]
  split
  · exact (List.singleton_sublist.mpr waits).append (List.Sublist.refl [index])
  · contradiction

theorem nodup_queueWith (nodup : world.queue.Nodup) (idle : index ∉ world.queue) (phase : Phase) :
    (world.queueWith index phase).Nodup := by
  rw [queueWith]
  split
  · apply nodup.append (List.nodup_singleton _)
    rintro other old new
    rw [List.mem_singleton.mp new] at old
    exact idle old
  · exact nodup

theorem statement_of_unfiled (unfiled : task.unfiled = true) : task.phase.statement ≠ none := by
  rw [Task.unfiled] at unfiled
  split at unfiled
  · rename_i awaits _
    rw [awaits]
    exact Option.some_ne_none _
  · rename_i awaits _
    rw [awaits]
    exact Option.some_ne_none _
  · cases unfiled

/-- A call goes into a phase.  Where it is to drop a secret, nobody has it; and where it
is an owner, it has filed its secret, or is about to. -/
theorem Filing.goOn (filing : world.Filing iroh codec) (changes : world.Changes index task later)
    (fresh : task.reply = none) (idle : index ∉ world.queue) (sameDb : later.db = world.db)
    (queue : later.queue = world.queueWith index task.phase)
    (owner : ∀ {other peer record}, later.Owner iroh codec other peer record →
      (world.Owner iroh codec other peer record ∧ (other = index → ¬ world.Unfiled index)) ∨
        other = index ∧ task.unfiled = true)
    (created : ∀ {peer record}, task.phase = .creating peer record →
      later.Backed iroh codec index peer record)
    (drop : ∀ {other peer record}, task.phase.statement = some (.dropSecret record.secretName) →
      ¬ later.Owner iroh codec other peer record)
    (leaving : ∀ {which other gone record}, later.Role Task.leaving which gone →
      later.Claims other record → record.secretName = gone.secretName → later.Detached other) :
    later.Filing iroh codec where
  created {other found} peer record there awaits := by
    rw [changes.tasks] at there
    split at there
    · rename_i same
      cases there
      rw [same]
      exact created awaits
    · exact changes.backed (filing.created there awaits)
  queued other member := by
    rw [changes.tasks]
    rw [queue, mem_queueWith] at member
    rcases member with waits | ⟨rfl, issued⟩
    · have different : other ≠ index := fun same => idle (same ▸ waits)
      rw [if_neg different]
      exact filing.queued other waits
    · rw [if_pos rfl]
      exact ⟨task, rfl, fresh, issued⟩
  nodup := by
    rw [queue]
    exact nodup_queueWith filing.nodup idle task.phase
  leaving := leaving
  drops {dropping other found} peer record member there issued has := by
    rw [queue, mem_queueWith] at member
    rw [changes.tasks] at there
    by_cases here : dropping = index
    · rw [if_pos here] at there
      cases there
      exact absurd has (drop issued)
    · rw [if_neg here] at there
      have waits : dropping ∈ world.queue := member.resolve_right fun both => here both.1
      rw [queue]
      rcases owner has with ⟨old, filed⟩ | ⟨rfl, unfiled⟩
      · rcases filing.drops waits there issued old with ⟨before, unfiled⟩
        have different : other ≠ index := fun same => filed same (same ▸ unfiled)
        exact ⟨before.trans (queue_sublist_queueWith task.phase),
          (changes.unfiled_of_ne different).mpr unfiled⟩
      · exact ⟨pair_sublist_queueWith waits (statement_of_unfiled unfiled),
          changes.unfiled_self.mpr unfiled⟩
  kept {other} peer record has filed := by
    rw [sameDb]
    rcases owner has with ⟨old, before⟩ | ⟨rfl, unfiled⟩
    · by_cases here : other = index
      · subst here
        exact filing.kept old (before rfl)
      · exact filing.kept old (mt (changes.unfiled_of_ne here).mpr filed)
    · exact absurd (changes.unfiled_self.mpr unfiled) filed

theorem waiting_of_claim {record : Record} (fresh : task.reply = none)
    (claim : task.claim = some record) : task.waiting = some record := by
  rw [Task.claim] at claim
  rw [Task.waiting, fresh]
  split at claim
  · rename_i awaits
    rw [awaits]
    exact claim
  · rename_i awaits
    rw [awaits]
    exact claim
  · cases claim

theorem attached_of_fresh (fresh : task.reply = none) : task.attached = none := by
  rw [Task.attached, fresh]
  cases task.phase <;> rfl

theorem waiting_of_attached {record : Record} (attached : task.attached = some record) :
    task.waiting = none := by
  rw [Task.attached] at attached
  rw [Task.waiting]
  split at attached
  · rename_i awaits replied
    rw [awaits, replied]
  · cases attached

theorem claim_of_unfiled (unfiled : task.unfiled = true) : task.claim ≠ none := by
  rw [Task.unfiled] at unfiled
  rw [Task.claim]
  split at unfiled
  · rename_i awaits _
    rw [awaits]
    exact Option.some_ne_none _
  · rename_i awaits _
    rw [awaits]
    exact Option.some_ne_none _
  · cases unfiled

theorem not_unfiled_of_attached {record : Record} (attached : task.attached = some record) :
    task.unfiled = false := by
  rw [Task.attached] at attached
  rw [Task.unfiled]
  split at attached
  · rename_i awaits _
    rw [awaits]
  · cases attached

/-- A call goes into a phase in which it has no record, or the one it had; and what is
listed then was listed before, or is the record of the call, which is attached. -/
theorem Inv.goOn (inv : world.Inv iroh codec) (changes : world.Changes index task later)
    (fresh : task.reply = none) (idle : index ∉ world.queue)
    (sameName : later.localName = world.localName) (sameDb : later.db = world.db)
    (queue : later.queue = world.queueWith index task.phase)
    (listed : ∀ entry ∈ later.listed,
      entry ∈ world.listed ∨ entry.1 = index ∧ world.Role Task.attached index entry.2)
    (single : (later.listed.map Prod.fst).Nodup)
    (claim : ∀ record, task.claim = some record →
      world.Role Task.waiting index record ∧ ¬ world.Unfiled index)
    (parsing : task.phase = .parsing → world.tasks[index]? = none)
    (created : ∀ peer record, task.phase ≠ .creating peer record)
    (drop : ∀ {other peer record}, task.phase.statement = some (.dropSecret record.secretName) →
      ¬ later.Owner iroh codec other peer record)
    (leaving : ∀ gone, task.leaving = some gone → ∀ {other record}, later.Claims other record →
      record.secretName = gone.secretName → later.Detached other) : later.Inv iroh codec := by
  have attached : ∀ {other record}, later.Role Task.attached other record →
      world.Role Task.attached other record := by
    intro other record
    apply changes.role
    intro record has
    cases (attached_of_fresh fresh).symm.trans has
  have waits : ∀ {other record}, later.Role Task.waiting other record →
      world.Role Task.waiting other record := by
    intro other record
    apply changes.role
    intro record has
    exact (claim record (claim_of_waiting has)).1
  have claims : ∀ {other record}, later.Claims other record → world.Claims other record := by
    rintro other record (member | has)
    · rcases listed _ member with old | ⟨same, own⟩
      · exact Or.inl old
      · obtain rfl : other = index := same
        exact Or.inr (own.mono fun _ => claim_of_attached)
    · apply Or.inr
      apply changes.role _ has
      intro record own
      exact (claim record own).1.mono fun _ => claim_of_waiting
  have holds : ∀ {other record}, later.Holds other record → world.Holds other record := by
    rintro other record (member | has)
    · rcases listed _ member with old | ⟨same, own⟩
      · exact Or.inl old
      · obtain rfl : other = index := same
        exact Or.inr own
    · exact Or.inr (attached has)
  -- A call that is listed afterwards was not waiting.
  have settled : ∀ entry ∈ later.listed, entry.1 = index →
      ∃ old, world.tasks[index]? = some old ∧ old.waiting = none ∧ old.unfiled = false := by
    intro entry member same
    rcases listed entry member with old | ⟨_, own⟩
    · rcases inv.roster.ended entry old with ⟨task', found, none', _⟩
      rw [same] at found
      refine ⟨task', found, ?_, ?_⟩
      · rw [Option.eq_none_iff_forall_not_mem]
        intro record has
        cases none'.symm.trans (claim_of_waiting has)
      · rw [← Bool.not_eq_true]
        intro unfiled
        exact claim_of_unfiled unfiled none'
    · rcases own with ⟨task', found, has⟩
      exact ⟨task', found, waiting_of_attached has, not_unfiled_of_attached has⟩
  have ended : ∀ entry ∈ later.listed, ∃ task, later.tasks[entry.1]? = some task ∧
      task.claim = none ∧ task.phase ≠ .parsing := by
    intro entry member
    rw [changes.tasks]
    split
    · rename_i same
      rcases settled entry member same with ⟨old, found, notWaiting, _⟩
      refine ⟨task, rfl, ?_, ?_⟩
      · rw [Option.eq_none_iff_forall_not_mem]
        intro record has
        rcases (claim record has).1 with ⟨old', found', waiting⟩
        cases found.symm.trans found'
        cases notWaiting.symm.trans waiting
      · intro begins
        cases found.symm.trans (parsing begins)
    · rename_i different
      rcases listed entry member with old | ⟨same, _⟩
      · exact inv.roster.ended entry old
      · exact absurd same different
  refine ⟨inv.roster.fewer changes claims ended single,
    inv.naming.fewer claims holds waits attached sameName (by rw [sameDb]; exact List.Subset.refl _),
    inv.filing.goOn changes fresh idle sameDb queue ?_ ?_ drop ?_⟩
  · intro other peer record owner
    refine Or.inl ⟨owner.fewer inv.roster changes (claims owner.claims), ?_⟩
    rintro rfl ⟨old, found, unfiled⟩
    rcases owner.claims with member | has
    · rcases settled _ member rfl with ⟨old', found', _, filed⟩
      cases found.symm.trans found'
      cases unfiled.symm.trans filed
    · exact (claim record (changes.role_self.mp has)).2 ⟨old, found, unfiled⟩
  · intro peer record awaits
    exact absurd awaits (created peer record)
  · intro which other gone record has has' same
    by_cases here : which = index
    · subst here
      exact leaving gone (changes.role_self.mp has) has' same
    · have before := (changes.role_of_ne here).mp has
      exact changes.detached (inv.filing.leaving before (claims has') same)

end GoOn

end World

end Quackhole.Web.Remotes
