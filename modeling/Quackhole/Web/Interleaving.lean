import Quackhole.Web.Overlap

/-!
# Calls that overlap and are apart

What an event does to the list and the secrets, one kind of event at a time, and from
that what holds in every run whose events are apart.  Three runs that are not show
how the list and the secrets come to be wrong.
-/

namespace Quackhole.Web.Remotes

open Quackhole.Word Quackhole.Ticket Quackhole.Transition

namespace World

section Steps

variable {Id Url : Type} {iroh : Iroh Id Url} {codec : TicketCodec} {world : World}
  {index : Nat} {task : Task}

/-- A call that does not wait for a statement is not in the queue. -/
theorem Filing.idle (filing : world.Filing iroh codec) (found : world.tasks[index]? = some task)
    (done : task.reply ≠ none ∨ task.phase.statement = none) : index ∉ world.queue := by
  intro waits
  rcases filing.queued index waits with ⟨task', found', pending, issued⟩
  cases found.symm.trans found'
  rcases done with replied | nothing
  · exact replied pending
  · exact issued nothing

/-- A call begins. -/
theorem Inv.spawn (inv : world.Inv iroh codec) {call : Call (Nat × Record)}
    (apart : world.Apart iroh codec (.call call)) : (world.spawn call).Inv iroh codec := by
  have changes : world.Changes world.tasks.length { call := call, phase := firstPhase call }
      (world.spawn call) := changes_spawn call
  have noClaim : ({ call := call, phase := firstPhase call } : Task).claim = none := by
    cases call <;> rfl
  have absent : world.tasks[world.tasks.length]? = none := List.getElem?_eq_none (Nat.le_refl _)
  apply inv.goOn changes rfl _ rfl rfl rfl
  · intro entry member
    exact Or.inl member
  · exact inv.roster.single
  · intro record claim
    cases noClaim.symm.trans claim
  · intro _
    exact absent
  · intro peer record
    cases call <;> exact Phase.noConfusion
  · intro other peer record issued
    cases call <;> cases issued
  · intro gone leaving other record claims same
    cases call with
    | detach object =>
        cases leaving
        have before : other = object.1 := by
          rcases changes.claims noClaim rfl claims with listed | ⟨task, found, claim⟩
          · exact apart.1 (other, record) listed same
          · exact apart.2 (task, other) (List.mk_mem_zipIdx_iff_getElem?.mpr found) record claim same
        refine ⟨world.tasks.length, object.2, ?_⟩
        rw [changes.tasks, if_pos rfl, before]
        rfl
    | _ => cases leaving
  · intro waits
    rcases inv.filing.queued _ waits with ⟨task, found, _⟩
    cases absent.symm.trans found

/-- A call comes to its end, or asks for the names of the catalogs; remotes may leave the
list. -/
theorem Inv.settle (inv : world.Inv iroh codec) (found : world.tasks[index]? = some task)
    (done : task.reply ≠ none ∨ task.phase.statement = none) {phase : Phase}
    (quiet : phase = .selecting ∨ ∃ result, phase = .ended result)
    {listed : List (Nat × Record)} (fewer : listed.Sublist world.listed) :
    ({ world.goOn index task.call phase with listed := listed } : World).Inv iroh codec := by
  have changes : world.Changes index { call := task.call, phase := phase }
      { world.goOn index task.call phase with listed := listed } :=
    changes_set found phase none _ _ _
  apply inv.goOn changes rfl (inv.filing.idle found done) rfl rfl rfl
  · intro entry member
    exact Or.inl (fewer.subset member)
  · exact inv.roster.single.sublist (fewer.map _)
  · intro record claim
    rcases quiet with rfl | ⟨result, rfl⟩ <;> cases claim
  · rintro rfl
    rcases quiet with same | ⟨result, same⟩ <;> cases same
  · rintro peer record rfl
    rcases quiet with same | ⟨result, same⟩ <;> cases same
  · intro other peer record issued
    rcases quiet with rfl | ⟨result, rfl⟩ <;> cases issued
  · intro gone leaving
    rcases quiet with rfl | ⟨result, rfl⟩ <;> cases leaving

/-- A call drops a secret that nobody has. -/
theorem Inv.drop (inv : world.Inv iroh codec) (found : world.tasks[index]? = some task)
    (replied : task.reply ≠ none) {phase : Phase} {name : Text}
    (drops : phase.statement = some (.dropSecret name))
    (nobody : ∀ {other peer record}, record.secretName = name →
      ¬ (world.goOn index task.call phase).Owner iroh codec other peer record) :
    (world.goOn index task.call phase).Inv iroh codec := by
  have changes : world.Changes index { call := task.call, phase := phase }
      (world.goOn index task.call phase) :=
    changes_set found phase none _ _ _
  apply inv.goOn changes rfl (inv.filing.idle found (Or.inl replied)) rfl rfl rfl
  · intro entry member
    exact Or.inl member
  · exact inv.roster.single
  · intro record claim
    cases phase <;> cases drops <;> cases claim
  · rintro rfl
    cases drops
  · rintro peer record rfl
    cases drops
  · intro other peer record issued
    have same := Option.some.inj (drops.symm.trans issued)
    exact nobody (Statement.dropSecret.inj same).symm
  · intro gone leaving
    cases phase <;> cases drops <;> cases leaving

/-- A record whose call takes its secret back out belongs to nobody else. -/
theorem Inv.not_owner (inv : world.Inv iroh codec) (found : world.tasks[index]? = some task)
    {record : Record} (claim : task.claim = some record) (failed : Statement) {other : Nat}
    {peer : Peer} {record' : Record} (same : record'.secretName = record.secretName) :
    ¬ (world.goOn index task.call (.cleaning record failed)).Owner iroh codec other peer record' := by
  have changes : world.Changes index { call := task.call, phase := .cleaning record failed }
      (world.goOn index task.call (.cleaning record failed)) :=
    changes_set found _ none _ _ _
  intro owner
  have before : world.Claims other record' := changes.claims rfl rfl owner.claims
  have own : world.Claims index record := Or.inr ⟨task, found, claim⟩
  obtain rfl := inv.roster.secrets before own same
  rcases owner.claims with listed | has
  · rcases inv.roster.ended _ listed with ⟨task', found', none', _⟩
    cases found.symm.trans found'
    cases claim.symm.trans none'
  · cases changes.role_self.mp has

theorem Inv.resumed (inv : world.Inv iroh codec) (found : world.tasks[index]? = some task)
    (awaits : task.phase.statement ≠ none) {reply : Option Reply} (replied : task.reply = some reply) :
    (world.resumed index task reply).Inv iroh codec := by
  have done : task.reply ≠ none := by
    rw [replied]
    exact Option.some_ne_none _
  rcases task with ⟨call, phase, answer⟩
  obtain rfl : answer = some reply := replied
  cases phase with
  | parsing => exact absurd rfl awaits
  | ended result => exact absurd rfl awaits
  | creating peer record =>
      cases reply with
      | none => exact inv.drop found done rfl fun same => inv.not_owner found rfl _ same
      | some answer =>
          apply inv.goOn (changes_set found (.attaching peer record) none _ _ _) rfl
            (inv.filing.idle found (Or.inl done)) rfl rfl rfl
          · intro entry member
            exact Or.inl member
          · exact inv.roster.single
          · intro record' claim
            cases claim
            refine ⟨⟨_, found, rfl⟩, ?_⟩
            rintro ⟨task', found', unfiled⟩
            cases found.symm.trans found'
            cases unfiled
          · intro same
            cases same
          · intro peer record same
            cases same
          · intro other peer record issued
            cases issued
          · intro gone leaving
            cases leaving
  | attaching peer record =>
      cases reply with
      | none => exact inv.drop found done rfl fun same => inv.not_owner found rfl _ same
      | some answer =>
          have unlisted : index ∉ world.listed.map Prod.fst := by
            intro member
            rcases List.mem_map.mp member with ⟨entry, listed, rfl⟩
            rcases inv.roster.ended entry listed with ⟨task', found', none', _⟩
            cases found.symm.trans found'
            cases none'
          apply inv.goOn (changes_set found (.ended (.ok (some record))) none _ _ _) rfl
            (inv.filing.idle found (Or.inl done)) rfl rfl rfl
          · intro entry member
            rcases List.mem_append.mp member with old | new
            · exact Or.inl old
            · rw [List.mem_singleton.mp new]
              exact Or.inr ⟨rfl, _, found, rfl⟩
          · change ((world.listed ++ [(index, record)]).map Prod.fst).Nodup
            rw [List.map_append]
            apply inv.roster.single.append (List.nodup_singleton _)
            intro other old new
            rw [List.mem_singleton.mp new] at old
            exact unlisted old
          · intro record' claim
            cases claim
          · intro same
            cases same
          · intro peer record same
            cases same
          · intro other peer record issued
            cases issued
          · intro gone leaving
            cases leaving
  | cleaning record failed =>
      exact inv.settle found (Or.inl done) (Or.inr ⟨_, rfl⟩) (List.Sublist.refl _)
  | detaching record =>
      apply inv.drop found done rfl
      intro other peer record' same owner
      have changes : world.Changes index { call := call, phase := .dropping record }
          (world.goOn index call (.dropping record)) :=
        changes_set found _ none _ _ _
      have before : world.Claims other record' := changes.claims rfl rfl owner.claims
      have detached := inv.filing.leaving ⟨_, found, rfl⟩ before same
      exact owner.undetached (changes.detached detached)
  | dropping record =>
      exact inv.settle found (Or.inl done) (Or.inl rfl) (List.Sublist.refl _)
  | selecting =>
      rcases reply with _ | _ | live
      · exact inv.settle found (Or.inl done) (Or.inr ⟨_, rfl⟩) (List.Sublist.refl _)
      · exact inv.settle found (Or.inl done) (Or.inr ⟨_, rfl⟩) (List.Sublist.refl _)
      · exact inv.settle found (Or.inl done) (Or.inr ⟨_, rfl⟩) List.filter_sublist
  | typing name =>
      cases reply with
      | none => exact inv.settle found (Or.inl done) (Or.inr ⟨_, rfl⟩) (List.Sublist.refl _)
      | some answer => exact inv.settle found (Or.inl done) (Or.inr ⟨_, rfl⟩) (List.Sublist.refl _)

/-- An attach that passes its check. -/
theorem of_opening {ticket name : Text} {peer : Peer} {record : Record}
    (passes : world.opening iroh codec ticket name = .ok (peer, record)) :
    Peer.parseTicket iroh codec ticket = .ok peer ∧
      (∀ entry ∈ world.listed, entry.2.endpointId ≠ peer.endpointId) ∧
      record = recordOf world.session.names peer name := by
  rw [opening] at passes
  split at passes
  · cases passes
  · rename_i read
    split at passes
    · cases passes
    · rename_i missing
      cases passes
      refine ⟨read, ?_, rfl⟩
      intro entry listed same
      have different := List.find?_eq_none.mp missing entry.2 (List.mem_map_of_mem listed)
      exact different (decide_eq_true same)

/-- What an attach that goes on has: its record, and a secret to file if its ticket
carries a token. -/
theorem opened_cases (peer : Peer) (record : Record) :
    Phase.opened peer record = .attaching peer record ∧ peer.token = [] ∨
      Phase.opened peer record = .creating peer record := by
  rw [Phase.opened]
  split
  · rename_i empty
    exact Or.inl ⟨rfl, List.isEmpty_iff.mp empty⟩
  · exact Or.inr rfl

theorem claim_opened (call : Call (Nat × Record)) (peer : Peer) (record : Record) :
    ({ call := call, phase := .opened peer record } : Task).claim = some record := by
  rw [Task.claim]
  rcases opened_cases peer record with ⟨awaits, _⟩ | awaits
  · rw [awaits]
  · rw [awaits]

/-- An attach makes its record: what is claimed then was claimed before, or is new. -/
theorem Changes.claims_or {later : World} (changes : world.Changes index task later)
    {record : Record} (claim : task.claim = some record) (listed : later.listed = world.listed)
    {other : Nat} {record' : Record} (claims : later.Claims other record') :
    world.Claims other record' ∨ other = index ∧ record' = record := by
  rcases claims with member | has
  · rw [listed] at member
    exact Or.inl (Or.inl member)
  · by_cases here : other = index
    · rw [here] at has
      exact Or.inr ⟨here, Option.some.inj ((changes.role_self.mp has).symm.trans claim)⟩
    · exact Or.inl (Or.inr ((changes.role_of_ne here).mp has))

theorem Roster.grown (roster : world.Roster iroh codec) {later : World}
    (changes : world.Changes index task later) {record : Record}
    (claim : task.claim = some record) (listed : later.listed = world.listed)
    (unlisted : ∀ entry ∈ world.listed, entry.1 ≠ index) {peer : Peer}
    (backed : later.Backed iroh codec index peer record)
    (free : ∀ {other record'}, world.Claims other record' → record'.endpointId ≠ record.endpointId) :
    later.Roster iroh codec where
  backed claims := by
    rcases changes.claims_or claim listed claims with old | ⟨rfl, rfl⟩
    · rcases roster.backed old with ⟨peer', backed'⟩
      exact ⟨peer', changes.backed backed'⟩
    · exact ⟨peer, backed⟩
  ended entry member := by
    rw [listed] at member
    rw [changes.tasks, if_neg (unlisted entry member)]
    exact roster.ended entry member
  single := by
    rw [listed]
    exact roster.single
  peers first second same := by
    rcases changes.claims_or claim listed first with old | ⟨rfl, rfl⟩
    · rcases changes.claims_or claim listed second with old' | ⟨rfl, rfl⟩
      · exact roster.peers old old' same
      · exact absurd same (free old)
    · rcases changes.claims_or claim listed second with old' | ⟨rfl, rfl⟩
      · exact absurd same.symm (free old')
      · rfl

theorem Naming.grown (naming : world.Naming) {later : World}
    (changes : world.Changes index task later) (fresh : task.reply = none) {record : Record}
    (claim : task.claim = some record) (listed : later.listed = world.listed)
    (sameName : later.localName = world.localName) (sameDb : later.db = world.db)
    (free : record.name ∉ world.session.names) : later.Naming := by
  have attached : ∀ {other record'}, later.Role Task.attached other record' →
      world.Role Task.attached other record' := by
    intro other record'
    apply changes.role
    intro record' has
    cases (attached_of_fresh fresh).symm.trans has
  have holds : ∀ {other record'}, later.Holds other record' → world.Holds other record' := by
    intro other record' has
    rw [Holds, listed] at has
    exact has.imp_right attached
  constructor
  · intro other record' claims
    rw [sameName]
    rcases changes.claims_or claim listed claims with old | ⟨_, rfl⟩
    · exact naming.notLocal old
    · intro same
      rw [same] at free
      exact free List.mem_cons_self
  · intro first second record' record'' has has'
    exact naming.distinct (holds has) (holds has')
  · intro first second record' record'' has waits same
    rw [sameDb]
    by_cases here : second = index
    · subst here
      obtain rfl : record'' = record :=
        Option.some.inj ((claim_of_waiting (changes.role_self.mp waits)).symm.trans claim)
      rcases holds has with member | old
      · have taken : record'.name ∈ world.session.names :=
          List.mem_cons_of_mem _ (List.mem_map_of_mem (List.mem_map_of_mem member))
        rw [same] at taken
        exact absurd taken free
      · exact naming.here old
    · exact naming.held (holds has) ((changes.role_of_ne here).mp waits) same
  · intro other record' has
    rw [sameDb]
    exact naming.here (attached has)

theorem Inv.opened (inv : world.Inv iroh codec) (found : world.tasks[index]? = some task)
    (parsing : task.phase = .parsing) {ticket name : Text} (made : task.call = .attach ticket name)
    {peer : Peer} {record : Record}
    (passes : world.opening iroh codec ticket name = .ok (peer, record))
    (alone : world.Alone peer) :
    (world.goOn index task.call (.opened peer record)).Inv iroh codec := by
  rcases of_opening passes with ⟨read, absent, shape⟩
  have changes : world.Changes index { call := task.call, phase := .opened peer record }
      (world.goOn index task.call (.opened peer record)) :=
    changes_set found _ none _ _ _
  have claim := claim_opened task.call peer record
  have idle : index ∉ world.queue := by
    apply inv.filing.idle found
    rw [parsing]
    exact Or.inr rfl
  have unlisted : ∀ entry ∈ world.listed, entry.1 ≠ index := by
    intro entry member same
    rcases inv.roster.ended entry member with ⟨task', found', _, begun⟩
    rw [same] at found'
    cases found.symm.trans found'
    exact begun parsing
  have backed : (world.goOn index task.call (.opened peer record)).Backed iroh codec index peer
      record := by
    refine ⟨ticket, name, ?_, read, ?_, ?_⟩
    · rw [changes.tasks, if_pos rfl, ← made]
      rfl
    · rw [shape]
      rfl
    · rw [shape]
      rfl
  have free : ∀ {other record'}, world.Claims other record' →
      record'.endpointId ≠ record.endpointId := by
    rintro other record' (member | ⟨task', found', claim'⟩)
    · rw [shape]
      exact absent _ member
    · rw [shape]
      exact alone.1 task' (List.mem_of_getElem? found') record' claim'
  have unnamed : record.name ∉ world.session.names := by
    rw [shape]
    exact uniqueName_notMem _ _
  refine ⟨inv.roster.grown changes claim rfl unlisted backed free,
    inv.naming.grown changes rfl claim rfl rfl rfl unnamed,
    inv.filing.goOn changes rfl idle rfl rfl ?_ ?_ ?_ ?_⟩
  · intro other peer' record' owner
    rcases changes.claims_or claim rfl owner.claims with old | ⟨rfl, rfl⟩
    · refine Or.inl ⟨owner.fewer inv.roster changes old, ?_⟩
      rintro rfl ⟨task', found', unfiled⟩
      cases found.symm.trans found'
      rw [Task.unfiled, parsing] at unfiled
      cases unfiled
    · apply Or.inr
      refine ⟨rfl, ?_⟩
      obtain rfl := owner.backed.unique backed
      rcases opened_cases peer' record' with ⟨_, tokenless⟩ | awaits
      · exact absurd tokenless owner.token
      · rw [Task.unfiled, awaits]
  · intro peer' record' awaits
    rcases opened_cases peer record with ⟨other, _⟩ | same
    · cases other.symm.trans awaits
    · cases same.symm.trans awaits
      exact backed
  · intro other peer' record' issued
    dsimp only at issued
    rcases opened_cases peer record with ⟨awaits, _⟩ | awaits
    · rw [awaits] at issued
      cases issued
    · rw [awaits] at issued
      cases issued
  · intro which other gone record' leaving claims same
    have before : world.Role Task.leaving which gone := by
      apply changes.role _ leaving
      intro gone' leaves
      rw [Task.leaving] at leaves
      rcases opened_cases peer record with ⟨awaits, _⟩ | awaits
      · rw [awaits] at leaves
        cases leaves
      · rw [awaits] at leaves
        cases leaves
    rcases changes.claims_or claim rfl claims with old | ⟨rfl, rfl⟩
    · exact changes.detached (inv.filing.leaving before old same)
    · rcases before with ⟨task', found', leaves⟩
      have different := alone.2 task' (List.mem_of_getElem? found') gone leaves
      rw [← same, shape] at different
      exact absurd rfl different

theorem Inv.parsed (inv : world.Inv iroh codec) (found : world.tasks[index]? = some task)
    (parsing : task.phase = .parsing) {ticket name : Text} (made : task.call = .attach ticket name)
    {failure : Option String} (apart : world.Apart iroh codec (.parsed index failure)) :
    (world.parsed iroh codec index task.call ticket name failure).Inv iroh codec := by
  have nothing : task.reply ≠ none ∨ task.phase.statement = none := by
    rw [parsing]
    exact Or.inr rfl
  cases failure with
  | some message =>
      exact inv.settle found nothing (Or.inr ⟨_, rfl⟩) (List.Sublist.refl _)
  | none =>
      rw [World.parsed]
      split
      · exact inv.settle found nothing (Or.inr ⟨_, rfl⟩) (List.Sublist.refl _)
      · rename_i peer record passes
        apply inv.opened found parsing made passes
        apply apart
        rw [opensFor, found, Option.map_some, made]
        dsimp only
        rw [passes]
        rfl

/-! ## A statement is executed -/

variable {statement : Statement} {accepts : Bool}

theorem changes_executed (found : world.tasks[index]? = some task) (statement : Statement)
    (accepts : Bool) :
    world.Changes index { task with reply := some (world.db.execute accepts statement).1 }
      (world.executed index task statement accepts) :=
  changes_set found task.phase _ _ _ _

theorem role_executed (found : world.tasks[index]? = some task) {role : Task → Option Record}
    (same : ∀ reply, role { task with reply := reply } = role task) {other : Nat} {record : Record}
    (has : (world.executed index task statement accepts).Role role other record) :
    world.Role role other record := by
  apply (changes_executed found statement accepts).role _ has
  intro record' own
  rw [same] at own
  exact ⟨task, found, own⟩

theorem claims_executed (found : world.tasks[index]? = some task) {other : Nat} {record : Record}
    (claims : (world.executed index task statement accepts).Claims other record) :
    world.Claims other record :=
  claims.imp_right (role_executed found fun _ => rfl)

theorem Roster.executed (roster : world.Roster iroh codec)
    (found : world.tasks[index]? = some task) (statement : Statement) (accepts : Bool) :
    (world.executed index task statement accepts).Roster iroh codec := by
  have changes := changes_executed found statement accepts
  apply roster.fewer changes (claims_executed found) _ roster.single
  intro entry member
  rw [changes.tasks]
  split
  · rename_i same
    rcases roster.ended entry member with ⟨task', found', ended⟩
    rw [same] at found'
    cases found.symm.trans found'
    exact ⟨_, rfl, ended⟩
  · exact roster.ended entry member

/-- The name under which a catalog was attached was free. -/
theorem names_of_attached (issued : task.phase.statement = some statement) {record : Record}
    (attached : ({ task with reply := some (world.db.execute accepts statement).1 } : Task).attached =
      some record) :
    task.claim = some record ∧ record.name ∉ world.db.names ∧
      record.name ∈ (world.db.execute accepts statement).2.names := by
  have claim := claim_of_attached attached
  rw [Task.attached] at attached
  split at attached
  · rename_i awaits done
    dsimp only at awaits
    rw [awaits] at issued
    cases issued
    cases attached
    exact ⟨claim, Database.names_of_attached (Option.some.inj done)⟩
  · cases attached

theorem Naming.executed (naming : world.Naming) (found : world.tasks[index]? = some task)
    (pending : task.reply = none) (issued : task.phase.statement = some statement)
    (stays : ∀ {other record}, world.Role Task.claim other record →
      record.name ∈ world.db.names → record.name ∈ (world.db.execute accepts statement).2.names) :
    (world.executed index task statement accepts).Naming := by
  have changes := changes_executed found statement accepts
  have waits : ∀ {other record},
      (world.executed index task statement accepts).Role Task.waiting other record →
      world.Role Task.waiting other record := by
    intro other record
    apply changes.role
    intro record' has
    have claim := claim_of_waiting has
    exact ⟨task, found, waiting_of_claim pending claim⟩
  have attached : ∀ {other record},
      (world.executed index task statement accepts).Role Task.attached other record →
      world.Role Task.attached other record ∨ other = index ∧ task.claim = some record ∧
        record.name ∉ world.db.names ∧
          record.name ∈ (world.db.execute accepts statement).2.names := by
    intro other record has
    by_cases here : other = index
    · subst here
      exact Or.inr ⟨rfl, names_of_attached issued (changes.role_self.mp has)⟩
    · exact Or.inl ((changes.role_of_ne here).mp has)
  have holds : ∀ {other record},
      (world.executed index task statement accepts).Holds other record →
      world.Holds other record ∨ other = index ∧ task.claim = some record ∧
        record.name ∉ world.db.names ∧
          record.name ∈ (world.db.execute accepts statement).2.names := by
    rintro other record (member | has)
    · exact Or.inl (Or.inl member)
    · exact (attached has).imp_left Or.inr
  -- Whoever holds a name keeps out the one that is about to attach under it.
  have keepsOut : ∀ {other first second}, world.Holds other first →
      task.claim = some second → second.name ∉ world.db.names → first.name ≠ second.name := by
    intro other first second has claim free same
    have taken := naming.held has ⟨task, found, waiting_of_claim pending claim⟩ same
    rw [same] at taken
    exact free taken
  constructor
  · intro other record claims
    exact naming.notLocal (claims_executed found claims)
  · intro first second record record' has has' same
    rcases holds has with old | ⟨here, claim, free, _⟩
    · rcases holds has' with old' | ⟨_, claim', free', _⟩
      · exact naming.distinct old old' same
      · exact absurd same (keepsOut old claim' free')
    · rcases holds has' with old' | ⟨here', _⟩
      · exact absurd same.symm (keepsOut old' claim free)
      · rw [here, here']
  · intro first second record record' has has' same
    rcases holds has with old | ⟨_, _, _, there⟩
    · have member := naming.held old (waits has') same
      rw [same] at member ⊢
      exact stays ((waits has').mono fun _ => claim_of_waiting) member
    · exact there
  · intro other record has
    rcases attached has with old | ⟨_, _, _, there⟩
    · exact stays (old.mono fun _ => claim_of_attached) (naming.here old)
    · exact there

theorem creating_of_createSecret {phase : Phase} {name token scope : Text}
    (issued : phase.statement = some (.createSecret name token scope)) :
    ∃ peer record, phase = .creating peer record ∧ record.secretName = name ∧
      peer.token = token ∧ peer.address = scope := by
  cases phase with
  | creating peer record =>
      cases issued
      exact ⟨peer, record, rfl, rfl, rfl, rfl⟩
  | _ => cases issued

theorem creating_of_unfiled (unfiled : task.unfiled = true) :
    ∃ peer record, task.phase = .creating peer record := by
  rw [Task.unfiled] at unfiled
  split at unfiled
  · rename_i awaits _
    exact ⟨_, _, awaits⟩
  · rename_i awaits _
    exact ⟨_, _, awaits⟩
  · cases unfiled

/-- Whoever waits behind the first is not the first. -/
theorem ne_of_pair_sublist {rest : List Nat} {other : Nat} (nodup : (index :: rest).Nodup)
    (before : List.Sublist [index, other] (index :: rest)) : other ≠ index := by
  rintro rfl
  exact (nodup.sublist before).notMem List.mem_cons_self

theorem Filing.executed (inv : world.Inv iroh codec) {rest : List Nat}
    (queue : world.queue = index :: rest) (found : world.tasks[index]? = some task)
    (issued : task.phase.statement = some statement) :
    (world.executed index task statement accepts).Filing iroh codec := by
  have filing := inv.filing
  have changes := changes_executed found statement accepts
  have nodup := filing.nodup
  rw [queue] at nodup
  have tail : (world.executed index task statement accepts).queue = rest := by
    change world.queue.tail = rest
    rw [queue]
    rfl
  have owners : ∀ {other peer record},
      (world.executed index task statement accepts).Owner iroh codec other peer record →
      world.Owner iroh codec other peer record := fun owner =>
    owner.fewer inv.roster changes (claims_executed found owner.claims)
  constructor
  · intro other task' peer record there awaits
    rw [changes.tasks] at there
    split at there
    · rename_i same
      cases there
      rw [same]
      exact changes.backed (filing.created found awaits)
    · exact changes.backed (filing.created there awaits)
  · intro other member
    rw [tail] at member
    have different : other ≠ index := fun same =>
      nodup.notMem (same ▸ member)
    rw [changes.tasks, if_neg different]
    apply filing.queued
    rw [queue]
    exact List.mem_cons_of_mem _ member
  · rw [tail]
    exact nodup.of_cons
  · intro which other gone record leaving claims same
    have before := role_executed found (fun _ => rfl) leaving
    exact changes.detached (filing.leaving before (claims_executed found claims) same)
  · intro dropping other task' peer record member there drops owner
    rw [tail] at member ⊢
    have different : dropping ≠ index := fun same =>
      nodup.notMem (same ▸ member)
    rw [changes.tasks, if_neg different] at there
    have waits : dropping ∈ world.queue := by
      rw [queue]
      exact List.mem_cons_of_mem _ member
    rcases filing.drops waits there drops (owners owner) with ⟨before, unfiled⟩
    rw [queue] at before
    have behind : List.Sublist [dropping, other] rest := by
      cases before with
      | cons _ behind => exact behind
      | cons_cons _ _ => exact absurd rfl different
    have apart : other ≠ index := fun same =>
      nodup.notMem (same ▸ behind.subset (List.mem_cons_of_mem _
        List.mem_cons_self))
    exact ⟨behind, (changes.unfiled_of_ne apart).mpr unfiled⟩
  · intro other peer record owner filed
    have old := owners owner
    change (world.db.execute accepts statement).2.secrets record.secretName = _
    by_cases drops : statement = .dropSecret record.secretName
    · rw [drops] at issued
      have first : index ∈ world.queue := by
        rw [queue]
        exact List.mem_cons_self
      rcases filing.drops first found issued old with ⟨before, unfiled⟩
      rw [queue] at before
      have different := ne_of_pair_sublist nodup before
      exact absurd ((changes.unfiled_of_ne different).mpr unfiled) filed
    · by_cases creates : ∃ token scope, statement = .createSecret record.secretName token scope
      · rcases creates with ⟨token, scope, rfl⟩
        rcases creating_of_createSecret issued with ⟨peer', record', awaits, same, rfl, rfl⟩
        have own : world.Claims index record' := by
          apply Or.inr
          refine ⟨task, found, ?_⟩
          rw [Task.claim, awaits]
        obtain rfl := inv.roster.secrets own old.claims same
        obtain rfl := inv.roster.unique own old.claims
        obtain rfl := (filing.created found awaits).unique old.backed
        cases done : (world.db.execute accepts
            (.createSecret record'.secretName peer'.token peer'.address)).1 with
        | none =>
            apply absurd _ filed
            rw [changes.unfiled_self, Task.unfiled, awaits, done]
        | some answer => exact Database.secrets_of_created done
      · rw [Database.secrets_execute statement (fun token scope same => creates ⟨token, scope, same⟩)
          drops]
        apply filing.kept old
        by_cases here : other = index
        · subst here
          rintro ⟨task', found', unfiled⟩
          cases found.symm.trans found'
          rcases creating_of_unfiled unfiled with ⟨peer', record', awaits⟩
          have own : world.Claims other record' := by
            apply Or.inr
            refine ⟨task, found, ?_⟩
            rw [Task.claim, awaits]
          obtain rfl := inv.roster.unique own old.claims
          rw [awaits] at issued
          exact creates ⟨_, _, (Option.some.inj issued).symm⟩
        · exact mt (changes.unfiled_of_ne here).mpr filed

theorem Inv.executed (inv : world.Inv iroh codec) {rest : List Nat}
    (queue : world.queue = index :: rest) (found : world.tasks[index]? = some task)
    (issued : task.phase.statement = some statement)
    (apart : world.Apart iroh codec (.execute accepts)) :
    (world.executed index task statement accepts).Inv iroh codec := by
  have waits : index ∈ world.queue := by
    rw [queue]
    exact List.mem_cons_self
  rcases inv.filing.queued index waits with ⟨task', found', pending, _⟩
  cases found.symm.trans found'
  refine ⟨inv.roster.executed found statement accepts,
    inv.naming.executed found pending issued ?_, Filing.executed inv queue found issued⟩
  rintro other record ⟨task', found', claim⟩ there
  apply Database.mem_names_execute there
  rintro rfl rfl
  have goes : world.goesNext = some record.name := by
    rw [goesNext, queue, List.head?_cons, Option.bind_some, found, Option.bind_some, issued]
    dsimp only
    rw [if_pos (List.contains_iff_mem.mpr there)]
  exact apart record.name goes task' (List.mem_of_getElem? found') record claim rfl

/-! ## The law -/

/-- An event that is apart keeps the list and the secrets in step. -/
theorem Inv.next (inv : world.Inv iroh codec) {event : Event} {later : World}
    (apart : world.Apart iroh codec event) (moved : World.next iroh codec event world = some later) :
    later.Inv iroh codec := by
  cases event with
  | call call =>
      cases moved
      exact inv.spawn apart
  | parsed index failure =>
      rcases Option.bind_eq_some_iff.mp moved with ⟨task, found, moved⟩
      split at moved
      · rename_i ticket name parsing made
        cases moved
        exact inv.parsed found parsing made apart
      · cases moved
  | execute accepts =>
      rcases Option.bind_eq_some_iff.mp moved with ⟨index, first, moved⟩
      rcases Option.bind_eq_some_iff.mp moved with ⟨task, found, moved⟩
      rcases Option.map_eq_some_iff.mp moved with ⟨statement, issued, rfl⟩
      exact inv.executed (List.eq_cons_of_mem_head? first) found issued apart
  | resume index =>
      rcases Option.bind_eq_some_iff.mp moved with ⟨task, found, moved⟩
      rcases Option.bind_eq_some_iff.mp moved with ⟨statement, issued, moved⟩
      rcases Option.map_eq_some_iff.mp moved with ⟨reply, replied, rfl⟩
      have awaits : task.phase.statement ≠ none := by
        rw [issued]
        exact Option.some_ne_none _
      exact inv.resumed found awaits replied

/-- Nothing was called yet. -/
structure Idle (world : World) : Prop where
  listed : world.listed = []
  tasks : world.tasks = []
  queue : world.queue = []

theorem Idle.inv (idle : world.Idle) : world.Inv iroh codec := by
  have noRole : ∀ {role index record}, ¬ world.Role role index record := by
    rintro role index record ⟨task, found, _⟩
    rw [idle.tasks] at found
    cases found
  have noClaim : ∀ {index record}, ¬ world.Claims index record := by
    rintro index record (member | has)
    · rw [idle.listed] at member
      cases member
    · exact noRole has
  refine ⟨⟨?_, ?_, ?_, ?_⟩, ⟨?_, ?_, ?_, ?_⟩, ⟨?_, ?_, ?_, ?_, ?_, ?_⟩⟩
  · intro index record claims
    exact absurd claims noClaim
  · intro entry member
    rw [idle.listed] at member
    cases member
  · rw [idle.listed]
    exact List.nodup_nil
  · intro index other first second claims
    exact absurd claims noClaim
  · intro index record claims
    exact absurd claims noClaim
  · intro index other first second holds
    exact absurd holds.claims noClaim
  · intro index other first second holds
    exact absurd holds.claims noClaim
  · intro index record has
    exact absurd has noRole
  · intro index task peer record found
    rw [idle.tasks] at found
    cases found
  · intro index member
    rw [idle.queue] at member
    cases member
  · rw [idle.queue]
    exact List.nodup_nil
  · intro index other gone record has
    exact absurd has noRole
  · intro index other task peer record member
    rw [idle.queue] at member
    cases member
  · intro index peer record owner
    exact absurd owner.claims noClaim

/-- Where the listed calls differ whenever a field of their records agrees, the field is
distinct on the list. -/
theorem nodup_of_index {α : Type} {listed : List (Nat × Record)} {field : Record → α}
    (single : (listed.map Prod.fst).Nodup)
    (agrees : ∀ entry ∈ listed, ∀ other ∈ listed, field entry.2 = field other.2 →
      entry.1 = other.1) : ((listed.map Prod.snd).map field).Nodup := by
  rw [List.map_map]
  apply List.Nodup.map_on _ (List.Nodup.of_map _ single)
  intro entry member other member' same
  exact List.inj_on_of_nodup_map single member member' (agrees entry member other member' same)

theorem Inv.sound (inv : world.Inv iroh codec) : world.Sound iroh codec where
  names := by
    apply List.nodup_cons.mpr
    constructor
    · intro member
      rcases List.mem_map.mp member with ⟨record, remote, same⟩
      rcases List.mem_map.mp remote with ⟨entry, listed, rfl⟩
      exact inv.naming.notLocal (Or.inl listed) same
    · apply nodup_of_index inv.roster.single
      intro entry member other member' same
      exact inv.naming.distinct (Or.inl member) (Or.inl member') same
  peers := by
    apply nodup_of_index inv.roster.single
    intro entry member other member' same
    exact inv.roster.peers (Or.inl member) (Or.inl member') same
  secrets entry member := by
    have claims : world.Claims entry.1 entry.2 := Or.inl member
    rcases inv.roster.backed claims with ⟨peer, backed⟩
    refine ⟨peer, backed, fun token undetached => ?_⟩
    rw [← inv.roster.secretName claims]
    apply inv.filing.kept ⟨claims, backed, token, undetached⟩
    rintro ⟨task, found, unfiled⟩
    rcases inv.roster.ended entry member with ⟨task', found', none', _⟩
    cases found.symm.trans found'
    exact claim_of_unfiled unfiled none'

end Steps

/-! ## Overlapping attaches -/

/-- What tells how a world fares: the list, the calls, and which of the two peers have a
secret. -/
def overview (world : World) : List (Nat × Record) × List (Call (Nat × Record)) × Bool × Bool :=
  (world.listed, world.tasks.map Task.call,
    (world.db.secrets (secretMarker ++ pairId false)).isSome,
    (world.db.secrets (secretMarker ++ pairId true)).isSome)

/-- Nothing was called yet, on a database that has its own catalog only. -/
def blankWorld : World where
  localName := "memory".toList
  db := { catalogs := [("memory".toList, ":memory:".toList)] }

def pairAttach (second : Bool) (token name : Text) : Call (Nat × Record) :=
  .attach (pairTicket second token) name

/-- The record an attach of one of the two makes under a name that is free. -/
def pairRemote (second : Bool) (name : Text) : Record :=
  recordOf [] (pairPeer second []) name

/-- Two attaches of one ticket without a token, under different names. -/
def attachedTwice : List Event :=
  [.call (pairAttach false [] "first".toList), .call (pairAttach false [] "second".toList),
    .parsed 0 none, .parsed 1 none, .execute true, .execute true, .resume 0, .resume 1]

/-- Two attaches under one name, and a `detach` of the first between the two ATTACHes. -/
def namedTwice : List Event :=
  [.call (pairAttach false [] "remote".toList),
    .call (pairAttach true "token".toList "remote".toList), .parsed 0 none, .parsed 1 none,
    .execute true, .execute true, .resume 0,
    .call (.detach (0, pairRemote false "remote".toList)), .execute true, .resume 1,
    .execute true, .resume 1]

/-- Two attaches of one ticket with a token.  The CREATE SECRET of the second is refused,
and it drops the secret of the first. -/
def robbed : List Event :=
  [.call (pairAttach false "token".toList "first".toList),
    .call (pairAttach false "token".toList "second".toList), .parsed 0 none, .parsed 1 none,
    .execute true, .execute true, .resume 0, .resume 1, .execute true, .execute true,
    .resume 0, .resume 1]

theorem listed_attachedTwice :
    (exec (World.next pairIroh .json) attachedTwice blankWorld).map World.listed =
      some [(0, pairRemote false "first".toList), (1, pairRemote false "second".toList)] := by
  decide +kernel

theorem listed_namedTwice :
    (exec (World.next pairIroh .json) namedTwice blankWorld).map World.listed =
      some [(0, pairRemote false "remote".toList), (1, pairRemote true "remote".toList)] := by
  decide +kernel

theorem overview_robbed :
    (exec (World.next pairIroh .json) robbed blankWorld).map overview =
      some ([(0, pairRemote false "first".toList)],
        [pairAttach false "token".toList "first".toList,
          pairAttach false "token".toList "second".toList], false, false) := by
  decide +kernel

theorem parseTicket_pairTicket :
    Peer.parseTicket pairIroh .json (pairTicket false "token".toList) =
      .ok (pairPeer false "token".toList) := by
  decide +kernel

/-- Two attaches for different peers that choose one name.  The ATTACH of the first is
refused, and it drops its own secret only. -/
def contended : List Event :=
  [.call (pairAttach false "token".toList "remote".toList),
    .call (pairAttach true "token".toList "remote".toList), .parsed 0 none, .parsed 1 none,
    .execute true, .execute true, .resume 1, .resume 0, .execute true, .execute true,
    .resume 0, .resume 1, .execute true, .resume 0]

theorem overview_contended :
    (execWhile (World.next pairIroh .json)
        (fun event world => decide (world.Apart pairIroh .json event)) contended blankWorld).map
      overview =
    some ([(1, pairRemote true "remote".toList)],
      [pairAttach false "token".toList "remote".toList,
        pairAttach true "token".toList "remote".toList], false, true) := by
  decide +kernel

end World

end Quackhole.Web.Remotes
