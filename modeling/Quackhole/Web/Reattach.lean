import Quackhole.Transition.Labelled
import Quackhole.Web.Remotes

/-!
# Attaching a peer again

A remote leaves the list when its catalog is gone, however that came about; its
secret goes only where a call drops it.  A secret that is left behind refuses the
next CREATE SECRET for the peer.  What follows says which calls leave one behind,
and that a peer can be attached again after any other calls.
-/

namespace Quackhole.Web.Remotes

open Quackhole.Word Quackhole.Ticket Quackhole.Transition
open Quackhole.Extension (Secret)

section Reattach

variable {Id Url : Type} (iroh : Iroh Id Url) (codec : TicketCodec)

/-- One call after the other.  Each comes with what DuckDB makes of its statements. -/
def next : LStep (Call Record × Accepts) Session :=
  fun move session => some (session.call iroh codec move.2 move.1)

namespace Session

variable (session : Session) (accepts : Accepts)

/-- Is a remote for the peer in the list? -/
def Lists (endpointId : Text) : Prop :=
  ∃ record ∈ session.remotes, record.endpointId = endpointId

/-- CREATE SECRET is not issued, or does what it says. -/
def Creates (peer : Peer) (record : Record) : Prop :=
  peer.token = [] ∨
    accepts (createStatement peer record) = true ∧ session.db.secrets record.secretName = none

/-- ATTACH does what it says. -/
def Attaches (peer : Peer) (record : Record) : Prop :=
  accepts (attachStatement peer record) = true ∧ record.name ∉ session.db.names

instance (peer : Peer) (record : Record) : Decidable (session.Creates accepts peer record) :=
  inferInstanceAs (Decidable (_ ∨ _))

instance (peer : Peer) (record : Record) : Decidable (session.Attaches accepts peer record) :=
  inferInstanceAs (Decidable (_ ∧ _))

/-- The session once the token of a peer is filed, if it has one. -/
def filed (peer : Peer) (record : Record) : Session :=
  if peer.token = [] then session
  else
    { session with
      db := session.db.putSecret record.secretName (some ⟨peer.token, peer.address⟩) }

/-- The session once a peer is attached. -/
def attached (peer : Peer) (record : Record) : Session :=
  { session with
    remotes := session.remotes ++ [record]
    db := session.db.addCatalog peer.address record.name }

end Session

/-! ## What a call does -/

section Calls

variable {iroh codec} {session : Session} {accepts : Accepts}

theorem query_attach (peer : Peer) (record : Record) :
    session.query accepts (attachStatement peer record) =
      if session.Attaches accepts peer record then
        (some .done, { session with db := session.db.addCatalog peer.address record.name })
      else (none, session) := by
  rw [Session.query, attachStatement, Database.execute]
  by_cases attaches : accepts (attachStatement peer record) = true ∧
      record.name ∉ session.db.names
  · rw [if_pos (show accepts (.attach peer.address record.name) = true ∧ _ from attaches),
      if_pos (show session.Attaches accepts peer record from attaches)]
  · rw [if_neg (show ¬ (accepts (.attach peer.address record.name) = true ∧ _) from attaches),
      if_neg (show ¬ session.Attaches accepts peer record from attaches)]

theorem query_create {peer : Peer} {record : Record} (token : peer.token ≠ []) :
    session.query accepts (createStatement peer record) =
      if session.Creates accepts peer record then (some .done, session.filed peer record)
      else (none, session) := by
  have same : session.Creates accepts peer record ↔
      accepts (.createSecret record.secretName peer.token peer.address) = true ∧
        session.db.secrets record.secretName = none := by
    rw [Session.Creates, createStatement]
    exact or_iff_right token
  rw [Session.query, Session.filed, if_neg token]
  conv_lhs => rw [createStatement, Database.execute]
  by_cases creates : session.Creates accepts peer record
  · rw [if_pos creates, if_pos (same.mp creates)]
  · rw [if_neg creates, if_neg (mt same.mpr creates)]

theorem query_dropSecret (name : Text) :
    session.query accepts (.dropSecret name) =
      if accepts (.dropSecret name) = true then
        (some .done, { session with db := session.db.putSecret name none })
      else (none, session) := by
  rw [Session.query, Database.execute]
  split <;> rfl

theorem query_detach (name : Text) :
    session.query accepts (.detach name) =
      if accepts (.detach name) = true ∧ name ∈ session.db.names then
        (some .done, { session with db := session.db.removeCatalog name })
      else (none, session) := by
  rw [Session.query, Database.execute]
  split <;> rfl

theorem query_databaseNames :
    session.query accepts .databaseNames =
      if accepts .databaseNames = true then (some (.names session.db.names), session)
      else (none, session) := by
  rw [Session.query, Database.execute]
  split <;> rfl

theorem attachRecord_eq (peer : Peer) (record : Record) :
    session.attachRecord accepts peer record =
      if session.Attaches accepts peer record then (.ok record, session.attached peer record)
      else session.cleanUp accepts record (attachStatement peer record) := by
  rw [Session.attachRecord, query_attach]
  by_cases attaches : session.Attaches accepts peer record
  · rw [if_pos attaches, if_pos attaches]
    rfl
  · rw [if_neg attaches, if_neg attaches]

theorem attaches_filed (peer : Peer) (record other : Record) :
    (session.filed peer record).Attaches accepts peer other ↔
      session.Attaches accepts peer other := by
  rw [Session.filed]
  split <;> rfl

/-- Attaching a peer that is not in the list files its token and attaches it, or
fails and drops its secret. -/
theorem attach_eq {ticket name : Text} {peer : Peer}
    (read : Peer.parseTicket iroh codec ticket = .ok peer)
    (unlisted : ¬ session.Lists peer.endpointId) :
    session.attach iroh codec accepts ticket name =
      let record := recordOf session.names peer name
      if session.Creates accepts peer record then
        (session.filed peer record).attachRecord accepts peer record
      else session.cleanUp accepts record (createStatement peer record) := by
  have missing : session.remotes.find? (·.endpointId = peer.endpointId) = none := by
    rw [List.find?_eq_none]
    intro record member same
    exact unlisted ⟨record, member, of_decide_eq_true same⟩
  rw [Session.attach, read]
  dsimp only
  rw [missing]
  dsimp only
  by_cases tokenless : peer.token = []
  · have empty : peer.token.isEmpty = true := List.isEmpty_iff.mpr tokenless
    have creates : session.Creates accepts peer (recordOf session.names peer name) :=
      Or.inl tokenless
    rw [if_pos empty, if_pos creates, Session.filed, if_pos tokenless]
  · have full : ¬ peer.token.isEmpty = true := mt List.isEmpty_iff.mp tokenless
    rw [if_neg full]
    generalize recordOf session.names peer name = record
    rw [query_create tokenless]
    by_cases creates : session.Creates accepts peer record
    · rw [if_pos creates, if_pos creates]
    · rw [if_neg creates, if_neg creates]

/-- Attaching a peer that is in the list changes nothing. -/
theorem attach_of_lists {ticket name : Text} {peer : Peer}
    (read : Peer.parseTicket iroh codec ticket = .ok peer)
    (listed : session.Lists peer.endpointId) :
    (session.attach iroh codec accepts ticket name).2 = session := by
  rcases listed with ⟨record, member, same⟩
  rw [Session.attach, read]
  dsimp only
  cases found : session.remotes.find? (·.endpointId = peer.endpointId) with
  | some already => rfl
  | none =>
      have different := List.find?_eq_none.mp found record member
      exact absurd (decide_eq_true same) different

/-- Where DuckDB has no reason of its own, attaching a peer that is not in the list
succeeds if and only if no secret is in the way. -/
theorem attach_isOk_iff {ticket name : Text} {peer : Peer}
    (read : Peer.parseTicket iroh codec ticket = .ok peer)
    (unlisted : ¬ session.Lists peer.endpointId)
    (attaches : session.Attaches accepts peer (recordOf session.names peer name))
    (creates : accepts (createStatement peer (recordOf session.names peer name)) = true) :
    (∃ record, (session.attach iroh codec accepts ticket name).1 = .ok record) ↔
      peer.token = [] ∨ session.db.secrets peer.secretName = none := by
  have same : session.Creates accepts peer (recordOf session.names peer name) ↔
      peer.token = [] ∨ session.db.secrets peer.secretName = none :=
    or_congr_right (and_iff_right creates)
  rw [attach_eq read unlisted, ← same]
  dsimp only
  split
  · rename_i created
    rw [attachRecord_eq, if_pos ((attaches_filed _ _ _).mpr attaches)]
    exact iff_of_true ⟨_, rfl⟩ created
  · rename_i notCreated
    apply iff_of_false _ notCreated
    rintro ⟨record, ok⟩
    cases ok

end Calls

/-! ## Which calls leave a secret behind -/

/-- Every secret of a peer is that of a listed remote, which then has its catalog; and
no peer is listed twice. -/
structure Session.Kept (session : Session) : Prop where
  named : ∀ record ∈ session.remotes, record.secretName = secretMarker ++ record.endpointId
  accounted : ∀ endpointId, session.db.secrets (secretMarker ++ endpointId) ≠ none →
    session.Lists endpointId
  attached : ∀ record ∈ session.remotes, session.db.secrets record.secretName ≠ none →
    record.name ∈ session.db.names
  distinct : (session.remotes.map Record.endpointId).Nodup

/-- The calls that leave no secret behind.  An attach that fails has the secret it
created dropped; and where the catalog of a listed remote goes, by `detach` or by a
statement typed by the user, the remote has no secret, or the same call drops it. -/
def Tidy : Call Record × Accepts → Session → Prop
  | (.attach ticket name, accepts), session =>
      ∀ peer, Peer.parseTicket iroh codec ticket = .ok peer → ¬ session.Lists peer.endpointId →
        let record := recordOf session.names peer name
        session.Creates accepts peer record → ¬ session.Attaches accepts peer record →
          peer.token = [] ∨ accepts (.dropSecret record.secretName) = true
  | (.detach record, accepts), session =>
      accepts (.detach record.name) = true →
        ∀ remote ∈ session.remotes, remote.name = record.name →
          session.db.secrets remote.secretName = none ∨
            remote.secretName = record.secretName ∧
              accepts (.dropSecret record.secretName) = true
  | (.reconcile, _), _ => True
  | (.typed name, accepts), session =>
      accepts (.detach name) = true →
        ∀ remote ∈ session.remotes, remote.name = name →
          session.db.secrets remote.secretName = none

section Kept

variable {iroh codec} {session : Session} {accepts : Accepts}

/-- Dropping a secret leaves the others. -/
theorem secrets_of_dropped {db : Database} {name other : Text}
    (there : (db.putSecret name none).secrets other ≠ none) :
    db.secrets other ≠ none ∧ other ≠ name := by
  rw [Database.secrets_putSecret] at there
  by_cases same : other = name
  · rw [same, Function.update_self] at there
    exact absurd rfl there
  · rw [Function.update_of_ne same] at there
    exact ⟨there, same⟩

theorem Session.Kept.dropSecret (kept : session.Kept) (name : Text) :
    ({ session with db := session.db.putSecret name none } : Session).Kept where
  named := kept.named
  accounted endpointId there := kept.accounted endpointId (secrets_of_dropped there).1
  attached record member there := kept.attached record member (secrets_of_dropped there).1
  distinct := kept.distinct

/-- A catalog may go where no listed remote of its name has a secret. -/
theorem Session.Kept.removeCatalog (kept : session.Kept) {name : Text}
    (bare : ∀ remote ∈ session.remotes, remote.name = name →
      session.db.secrets remote.secretName = none) :
    ({ session with db := session.db.removeCatalog name } : Session).Kept where
  named := kept.named
  accounted := kept.accounted
  attached record member there :=
    (Database.mem_names_removeCatalog _).mpr ⟨kept.attached record member there,
      fun same => there (bare record member same)⟩
  distinct := kept.distinct

theorem Session.Kept.reconcile (kept : session.Kept) : (session.reconcile accepts).Kept := by
  rw [Session.reconcile, query_databaseNames]
  split
  · rename_i answered
    split at answered
    · cases answered
      constructor
      · intro record member
        exact kept.named record (List.mem_filter.mp member).1
      · intro endpointId there
        rcases kept.accounted endpointId there with ⟨record, member, own⟩
        have secret : session.db.secrets record.secretName ≠ none := by
          rw [kept.named record member, own]
          exact there
        refine ⟨record, List.mem_filter.mpr ⟨member, ?_⟩, own⟩
        exact decide_eq_true (kept.attached record member secret)
      · intro record member
        exact kept.attached record (List.mem_filter.mp member).1
      · exact kept.distinct.sublist (List.filter_sublist.map _)
    · cases answered
  · rename_i answered
    split at answered
    · cases answered
      exact kept
    · cases answered
      exact kept

theorem Session.Kept.cleanUp (kept : session.Kept) (record : Record) (failed : Statement) :
    (session.cleanUp accepts record failed).2.Kept := by
  rw [Session.cleanUp, query_dropSecret]
  split
  · exact kept.dropSecret record.secretName
  · exact kept

/-- The secret that was just created is dropped. -/
theorem cleanUp_filed {peer : Peer} {record : Record} (failed : Statement)
    (drops : peer.token = [] ∨ accepts (.dropSecret record.secretName) = true) :
    ((session.filed peer record).cleanUp accepts record failed).2 =
      (session.cleanUp accepts record failed).2 := by
  rw [Session.filed]
  split
  · rfl
  · rename_i token
    have dropped := drops.resolve_left token
    rw [Session.cleanUp, Session.cleanUp, query_dropSecret, query_dropSecret, if_pos dropped,
      if_pos dropped]
    simp only [Database.putSecret, Function.update_idem]

/-- A peer that was not in the list, with its token filed, is listed with its catalog. -/
theorem Session.Kept.attached_filed (kept : session.Kept) {peer : Peer} {name : Text}
    (unlisted : ¬ session.Lists peer.endpointId) :
    let record := recordOf session.names peer name
    ((session.filed peer record).attached peer record).Kept := by
  intro record
  have secrets : ∀ other, other ≠ record.secretName →
      ((session.filed peer record).attached peer record).db.secrets other =
        session.db.secrets other := by
    intro other different
    rw [Session.attached, Session.filed]
    split
    · rfl
    · exact Function.update_of_ne different _ _
  have remotes : ((session.filed peer record).attached peer record).remotes =
      session.remotes ++ [record] := by
    rw [Session.attached, Session.filed]
    split <;> rfl
  have names : ((session.filed peer record).attached peer record).db.names =
      session.db.names ++ [record.name] := by
    rw [Session.attached, Database.names_addCatalog, Session.filed]
    split <;> rfl
  constructor
  · intro other member
    rw [remotes] at member
    rcases List.mem_append.mp member with old | new
    · exact kept.named other old
    · rw [List.mem_singleton.mp new]
      rfl
  · intro endpointId there
    by_cases own : endpointId = peer.endpointId
    · refine ⟨record, ?_, own.symm⟩
      rw [remotes]
      exact List.mem_append.mpr (Or.inr List.mem_cons_self)
    · rw [secrets _ fun same => own (List.append_cancel_left same)] at there
      rcases kept.accounted endpointId there with ⟨other, member, same⟩
      refine ⟨other, ?_, same⟩
      rw [remotes]
      exact List.mem_append.mpr (Or.inl member)
  · intro other member there
    rw [names]
    rw [remotes] at member
    rcases List.mem_append.mp member with old | new
    · have different : other.secretName ≠ record.secretName := by
        rw [kept.named other old]
        intro same
        exact unlisted ⟨other, old, List.append_cancel_left same⟩
      rw [secrets _ different] at there
      exact List.mem_append.mpr (Or.inl (kept.attached other old there))
    · rw [List.mem_singleton.mp new]
      exact List.mem_append.mpr (Or.inr List.mem_cons_self)
  · rw [remotes, List.map_append]
    apply List.Nodup.append kept.distinct (List.nodup_singleton _)
    intro endpointId old new
    rcases List.mem_map.mp old with ⟨other, member, rfl⟩
    exact unlisted ⟨other, member, List.mem_singleton.mp new⟩

theorem Session.Kept.attach (kept : session.Kept) {ticket name : Text}
    (tidy : Tidy iroh codec (.attach ticket name, accepts) session) :
    (session.attach iroh codec accepts ticket name).2.Kept := by
  cases read : Peer.parseTicket iroh codec ticket with
  | error message =>
      rw [Session.attach, read]
      exact kept
  | ok peer =>
      by_cases listed : session.Lists peer.endpointId
      · rw [attach_of_lists read listed]
        exact kept
      · have cleans := tidy peer read listed
        rw [attach_eq read listed]
        dsimp only at cleans ⊢
        split
        · rename_i creates
          rw [attachRecord_eq]
          split
          · exact kept.attached_filed listed
          · rename_i refused
            have drops := cleans creates (mt (attaches_filed _ _ _).mpr refused)
            rw [cleanUp_filed _ drops]
            exact kept.cleanUp _ _
        · exact kept.cleanUp _ _

theorem Session.Kept.detach (kept : session.Kept) {record : Record}
    (tidy : Tidy iroh codec (.detach record, accepts) session) :
    (session.detach accepts record).Kept := by
  rw [Session.detach]
  apply Session.Kept.reconcile
  rw [query_detach]
  split
  · rename_i detaches
    have covered := tidy detaches.1
    rw [query_dropSecret]
    split
    · apply (kept.dropSecret record.secretName).removeCatalog
      intro remote member same
      rw [Database.secrets_putSecret]
      by_cases own : remote.secretName = record.secretName
      · rw [own, Function.update_self]
      · rw [Function.update_of_ne own]
        exact (covered remote member same).resolve_right fun both => own both.1
    · rename_i refused
      apply kept.removeCatalog
      intro remote member same
      exact (covered remote member same).resolve_right fun both => refused both.2
  · rw [query_dropSecret]
    split
    · exact kept.dropSecret record.secretName
    · exact kept

/-- A tidy call keeps the secrets accounted for. -/
theorem Session.Kept.call (kept : session.Kept) {move : Call Record × Accepts}
    (tidy : Tidy iroh codec move session) : (session.call iroh codec move.2 move.1).Kept := by
  rcases move with ⟨call, accepts⟩
  cases call with
  | attach ticket name => exact kept.attach tidy
  | detach record => exact kept.detach tidy
  | reconcile => exact kept.reconcile
  | typed name =>
      dsimp only [Session.call]
      rw [query_detach]
      split
      · rename_i detaches
        exact kept.removeCatalog (tidy detaches.1)
      · exact kept

/-- A new session, in a database without secrets of peers. -/
def Fresh (session : Session) : Prop :=
  session.remotes = [] ∧ ∀ endpointId, session.db.secrets (secretMarker ++ endpointId) = none

theorem Fresh.kept (fresh : Fresh session) : session.Kept where
  named := by
    rw [fresh.1]
    exact nofun
  accounted endpointId there := absurd (fresh.2 endpointId) there
  attached := by
    rw [fresh.1]
    exact nofun
  distinct := by
    rw [fresh.1]
    exact List.nodup_nil

theorem kept_of_run {start : Session} (fresh : Fresh start)
    (run : Run (next iroh codec) (Tidy iroh codec) start session) : session.Kept := by
  apply run.invariant Session.Kept fresh.kept
  intro move before after tidy kept moved
  cases moved
  exact kept.call tidy

theorem reconcile_of_accepts (session : Session) :
    session.reconcile (fun _ => true) =
      { session with remotes := stillLive session.db.names session.remotes } := by
  rw [Session.reconcile, query_databaseNames, if_pos rfl]

theorem db_reconcile (session : Session) : (session.reconcile accepts).db = session.db := by
  rw [Session.reconcile, query_databaseNames]
  by_cases told : accepts .databaseNames = true
  · rw [if_pos told]
  · rw [if_neg told]

theorem remotes_reconcile (session : Session) :
    (session.reconcile accepts).remotes ⊆ session.remotes := by
  rw [Session.reconcile, query_databaseNames]
  by_cases told : accepts .databaseNames = true
  · rw [if_pos told]
    exact List.filter_subset_self _
  · rw [if_neg told]
    exact List.Subset.refl _

/-- A remote whose catalog is gone leaves the list, and no other remote is of its peer. -/
theorem not_lists_of_gone (kept : session.Kept) {remote : Record}
    (listed : remote ∈ session.remotes) {later : Session}
    (fewer : later.remotes ⊆ session.remotes) (gone : remote.name ∉ later.db.names) :
    ¬ (later.reconcile fun _ => true).Lists remote.endpointId := by
  rw [reconcile_of_accepts]
  rintro ⟨other, member, same⟩
  rcases List.mem_filter.mp member with ⟨inside, live⟩
  obtain rfl : other = remote :=
    List.inj_on_of_nodup_map kept.distinct (fewer inside) listed same
  exact gone (of_decide_eq_true live)

/-- What an untidy call leaves is a secret whose peer is not in the list after the next
reconcile, and which then refuses the peer. -/
theorem exists_left_of_not_tidy (kept : session.Kept) {move : Call Record × Accepts}
    (untidy : ¬ Tidy iroh codec move session) :
    ∃ endpointId,
      (session.call iroh codec move.2 move.1).db.secrets (secretMarker ++ endpointId) ≠ none ∧
        ¬ ((session.call iroh codec move.2 move.1).reconcile fun _ => true).Lists endpointId := by
  rcases move with ⟨call, accepts⟩
  cases call with
  | attach ticket name =>
      simp only [Tidy, not_forall, not_or] at untidy
      rcases untidy with ⟨peer, read, unlisted, creates, refused, token, keeps⟩
      have result : (session.attach iroh codec accepts ticket name).2 =
          session.filed peer (recordOf session.names peer name) := by
        rw [attach_eq read unlisted]
        dsimp only
        rw [if_pos creates, attachRecord_eq, if_neg (mt (attaches_filed _ _ _).mp refused),
          Session.cleanUp, query_dropSecret, if_neg keeps]
      have filed : session.filed peer (recordOf session.names peer name) =
          { session with
            db := session.db.putSecret peer.secretName (some ⟨peer.token, peer.address⟩) } := by
        rw [Session.filed, if_neg token]
        rfl
      refine ⟨peer.endpointId, ?_, ?_⟩
      · dsimp only [Session.call]
        rw [result, filed, Database.secrets_putSecret]
        intro unfiled
        rw [show secretMarker ++ peer.endpointId = peer.secretName from rfl,
          Function.update_self] at unfiled
        cases unfiled
      · dsimp only [Session.call]
        rw [result, filed]
        rintro ⟨record, member, same⟩
        have inside := remotes_reconcile _ member
        exact unlisted ⟨record, inside, same⟩
  | detach record =>
      simp only [Tidy, not_forall, not_or] at untidy
      rcases untidy with ⟨detaches, remote, listed, same, secret, notDropped⟩
      have there : record.name ∈ session.db.names := by
        rw [← same]
        exact kept.attached remote listed secret
      refine ⟨remote.endpointId, ?_, ?_⟩
      · dsimp only [Session.call]
        rw [← kept.named remote listed, Session.detach, db_reconcile, query_detach,
          if_pos ⟨detaches, there⟩, query_dropSecret]
        split
        · rename_i drops
          have different : remote.secretName ≠ record.secretName := fun own =>
            notDropped ⟨own, drops⟩
          rw [Database.secrets_putSecret, Function.update_of_ne different]
          exact secret
        · exact secret
      · apply not_lists_of_gone kept listed
        · dsimp only [Session.call]
          rw [Session.detach, query_detach, if_pos ⟨detaches, there⟩, query_dropSecret]
          split <;> exact remotes_reconcile _
        · dsimp only [Session.call]
          rw [Session.detach, db_reconcile, query_detach, if_pos ⟨detaches, there⟩,
            query_dropSecret, same]
          have gone : record.name ∉ (session.db.removeCatalog record.name).names := fun found =>
            ((Database.mem_names_removeCatalog _).mp found).2 rfl
          split <;> exact gone
  | reconcile => exact absurd trivial untidy
  | typed name =>
      simp only [Tidy, not_forall] at untidy
      rcases untidy with ⟨detaches, remote, listed, same, secret⟩
      have there : name ∈ session.db.names := by
        rw [← same]
        exact kept.attached remote listed secret
      have result : session.call iroh codec accepts (.typed name) =
          { session with db := session.db.removeCatalog name } := by
        dsimp only [Session.call]
        rw [query_detach, if_pos ⟨detaches, there⟩]
      dsimp only
      rw [result]
      refine ⟨remote.endpointId, ?_, ?_⟩
      · rw [← kept.named remote listed]
        exact secret
      · have fewer : ({ session with db := session.db.removeCatalog name } : Session).remotes ⊆
            session.remotes := List.Subset.refl _
        apply not_lists_of_gone kept listed fewer
        rw [same]
        exact fun found => ((Database.mem_names_removeCatalog _).mp found).2 rfl

end Kept

end Reattach

/-! ## A remote detached by hand -/

/-- DuckDB has no reason of its own to refuse a statement. -/
def accepting : Accepts :=
  fun _ => true

def pairTokenTicket : Text :=
  pairTicket false "token".toList

theorem parseTicket_pairTokenTicket :
    Peer.parseTicket pairIroh .json pairTokenTicket = .ok (pairPeer false "token".toList) := by
  decide +kernel

/-- Attach a peer, detach its catalog by hand, and let the list notice. -/
def byHand : List (Call Record × Accepts) :=
  [(.attach pairTokenTicket "remote".toList, accepting), (.typed "remote".toList, accepting),
    (.reconcile, accepting)]

/-- What of a session decides about attaching the peer again. -/
def Session.outlook (session : Session) :
    List Record × List Text × List Text × Option Thrown :=
  (session.remotes, session.names, session.db.names,
    match (session.attach pairIroh .json accepting pairTokenTicket "remote".toList).1 with
    | .ok _ => none
    | .error thrown => some thrown)

/-- The statement that files the token. -/
def fileToken : Statement :=
  createStatement (pairPeer false "token".toList)
    (recordOf ["memory".toList] (pairPeer false "token".toList) "remote".toList)

theorem outlook_byHand :
    (exec (next pairIroh .json) byHand soleSession).map Session.outlook =
      some ([], ["memory".toList], ["memory".toList], some (.refused fileToken)) := by
  decide +kernel

def pairRecord : Record :=
  recordOf soleSession.names (pairPeer false "token".toList) "remote".toList

/-- The session in which the peer is attached. -/
def attachedPair : Session where
  localName := "memory".toList
  remotes := [pairRecord]
  db := (soleSession.db.putSecret pairRecord.secretName
    (some ⟨"token".toList, (pairPeer false "token".toList).address⟩)).addCatalog
      (pairPeer false "token".toList).address pairRecord.name

theorem attach_soleSession :
    (soleSession.attach pairIroh .json accepting pairTokenTicket "remote".toList).2 =
      attachedPair := by
  have unlisted : ¬ soleSession.Lists (pairPeer false "token".toList).endpointId := by
    rintro ⟨record, member, _⟩
    cases member
  have creates : soleSession.Creates accepting (pairPeer false "token".toList) pairRecord :=
    Or.inr ⟨rfl, rfl⟩
  have free : pairRecord.name ∉ soleSession.names :=
    uniqueName_notMem soleSession.names "remote".toList
  have attaches : soleSession.Attaches accepting (pairPeer false "token".toList) pairRecord :=
    ⟨rfl, free⟩
  have made : recordOf soleSession.names (pairPeer false "token".toList) "remote".toList =
      pairRecord := rfl
  have token : (pairPeer false "token".toList).token ≠ [] := by
    decide
  rw [attach_eq parseTicket_pairTokenTicket unlisted]
  dsimp only
  rw [made, if_pos creates, attachRecord_eq, if_pos ((attaches_filed _ _ _).mpr attaches),
    Session.filed, if_neg token]
  rfl

/-- Attach a peer and detach it. -/
theorem run_detachedPair :
    Run (next pairIroh .json) (Tidy pairIroh .json) soleSession
      (attachedPair.detach accepting pairRecord) := by
  have attach : Tidy pairIroh .json (.attach pairTokenTicket "remote".toList, accepting)
      soleSession := by
    intro peer _ _ record _ _
    exact Or.inr rfl
  have detach : Tidy pairIroh .json (.detach pairRecord, accepting) attachedPair := by
    intro _ remote listed _
    rw [List.mem_singleton.mp listed]
    exact Or.inr ⟨rfl, rfl⟩
  have attaches : next pairIroh .json (.attach pairTokenTicket "remote".toList, accepting)
      soleSession = some attachedPair := by
    rw [next, Session.call, attach_soleSession]
  exact (Run.single attach attaches).tail detach rfl

end Quackhole.Web.Remotes
