import Quackhole.Extension.Attach
import Quackhole.Web.Reattach
import Quackhole.Word.Record

/-!
# Both clients attach alike

A native DuckDB attaches with `quackhole_attach` and detaches with a statement typed by the user;
a browser does both through its session.  The two have ways of their own with the secret of a
peer: one replaces what it finds and leaves its own behind, the other is refused by what it finds
and drops its own.  What is attached from the same tickets is the same, all the same.
-/

namespace Quackhole.Web.Alongside

open Quackhole.Word Quackhole.Ticket Quackhole.Transition Remotes
open Quackhole.Word.Record (lookup_cons_eq)
open Quackhole.Extension (Host Surroundings AttachArguments AttachRow Target Exception Secret
  quackholeAttach prepare prepare_eq_ok_iff parsedTicket keeps_prepare)

section Both

variable {Id Url Address : Type} [DecidableEq Id]

/-- A native database, and a browser's session. -/
structure Both (Id Address : Type) where
  native : Extension.Database Id Address
  session : Session

/-- What is done in both. -/
inductive Move (Id : Type) where
  | attach (ticket name : Text) (world : Surroundings Id)
  | detach (record : Record)

/-- What the browser's DuckDB makes of a statement, where the native one is asked as well. -/
def answers (world : Surroundings Id) : Accepts
  | .createSecret .. => world.createSecret.isOk
  | .attach .. => world.attach.isOk
  | _ => true

/-- `DETACH`, typed by the user.  It is refused where there is no such catalog. -/
def detachTyped (name : Text) (db : Extension.Database Id Address) :
    Extension.Database Id Address :=
  { db with catalogs := Function.update db.catalogs name none }

/-- The call of the session. -/
def Move.call : Move Id → Call Record × Accepts
  | .attach ticket name world => (.attach ticket name, answers world)
  | .detach record => (.detach record, fun _ => true)

variable (host : Host Id Url Address)

/-- What becomes of the native database. -/
def Move.native : Move Id → Extension.Database Id Address → Extension.Database Id Address
  | .attach ticket name world, db => (quackholeAttach host world { ticket, name } db).2
  | .detach record, db => detachTyped record.name db

def next : LStep (Move Id) (Both Id Address) := fun move both =>
  some
    { native := move.native host both.native
      session := both.session.call host.iroh host.codec move.call.2 move.call.1 }

/-- A ticket that reads the same through the C interface. -/
structure Offered (ticket : Text) (peer : Peer) : Prop where
  whole : '\x00' ∉ ticket
  read : Peer.parseTicket host.iroh host.codec ticket = .ok peer
  relay : '\x00' ∉ peer.relayUrl
  token : '\x00' ∉ peer.token

/-- The ticket is of a peer that is not attached, the name is free, and the native client gets as
far as its first statement.  Without a token to file, no other one may have been left there. -/
structure Fitting (both : Both Id Address) (ticket name : Text) (world : Surroundings Id)
    (peer : Peer) : Prop where
  offered : Offered host ticket peer
  prepared : ∃ target middle, prepare host world { ticket, name } both.native = (.ok target, middle)
  free : name ∉ both.session.names
  unlisted : ¬ both.session.Lists peer.endpointId
  tokened : peer.token ≠ [] ∨ both.native.secrets peer.secretName = none

/-- The moves after which both are alike. -/
def Proper : Move Id → Both Id Address → Prop
  | .attach ticket name world, both => ∃ peer, Fitting host both ticket name world peer
  | .detach record, both => record ∈ both.session.remotes

end Both

/-- Both return the same row, or both throw. -/
inductive Agree : Except Exception AttachRow → Except Thrown Record → Prop
  | returned {row : AttachRow} {record : Record} : row.name = record.name →
      row.endpointId = record.endpointId → row.relayUrl = record.relayUrl →
      Agree (.ok row) (.ok record)
  | thrown {error : Exception} {thrown : Thrown} : Agree (.error error) (.error thrown)

/-- An attach comes to the same in both. -/
def Concur {Id Url Address : Type} [DecidableEq Id] (host : Host Id Url Address) :
    Move Id → Both Id Address → Prop
  | .attach ticket name world, both =>
      Agree (quackholeAttach host world { ticket, name } both.native).1
        (both.session.attach host.iroh host.codec (answers world) ticket name).1
  | .detach _, _ => True

/-- The same catalogs are attached, and each listed remote has the same secret.  A secret of a peer
that is not listed is the native client's alone. -/
structure Alike {Id Address : Type} (both : Both Id Address) : Prop where
  catalogs : ∀ name, both.native.catalogs name = both.session.db.catalogs.lookup name
  secrets : ∀ record ∈ both.session.remotes,
    both.native.secrets record.secretName = both.session.db.secrets record.secretName

/-! ## Spellings -/

section Spellings

variable {Id Url Address : Type} {host : Host Id Url Address} {ticket name : Text} {peer : Peer}

theorem eq_ok_of_mapError {α ε ε' : Type} {result : Except ε α} {told : ε → ε'} {value : α}
    (returned : result.mapError told = .ok value) : result = .ok value := by
  cases result with
  | error err => cases returned
  | ok other => exact congrArg _ (Except.ok.inj returned)

theorem nul_notMem_endpointId (lawful : host.iroh.Lawful)
    (read : Peer.parseTicket host.iroh host.codec ticket = .ok peer) :
    '\x00' ∉ peer.endpointId := by
  obtain ⟨id, -, printed, -⟩ := exists_of_parseTicket read
  rw [printed]
  exact lawful.nul_notMem_toZ32 id

/-- The fields the native client reads are those of the peer. -/
theorem peer_of_parsed (lawful : host.iroh.Lawful) (offered : Offered host ticket peer)
    {read : Peer} (parsed : parsedTicket host { ticket, name } = .ok read) : read = peer := by
  obtain ⟨own, again, -, -, -, rfl⟩ := qhTicketParse_eq_ok_iff.mp (eq_ok_of_mapError parsed)
  rw [untilNul_eq_self offered.whole, offered.read] at again
  obtain rfl := Except.ok.inj again
  rw [untilNul_eq_self (nul_notMem_endpointId lawful offered.read),
    untilNul_eq_self offered.relay, untilNul_eq_self offered.token]

/-- A spelling the C interface makes of the endpoint id alone is that of the peer. -/
theorem eq_of_spelled (lawful : host.iroh.Lawful)
    (exact : ∀ id, host.iroh.parseEndpointId (host.iroh.toZ32 id) = .ok id)
    (read : Peer.parseTicket host.iroh host.codec ticket = .ok peer) (spell : Peer → Text)
    (own : ∀ bare : Peer, bare.endpointId = peer.endpointId → spell bare = spell peer)
    (whole : '\x00' ∉ spell peer) {outLen : Nat} {written : Text}
    (returned : ((peerFromId host.iroh peer.endpointId).bind fun bare =>
      writeStrOrErr outLen (spell bare)) = .ok written) :
    written = spell peer := by
  obtain ⟨bare, made, stored⟩ := bind_eq_ok_iff.mp returned
  rw [peerFromId, untilNul_eq_self (nul_notMem_endpointId lawful read)] at made
  obtain ⟨id, accepted, rfl⟩ := Peer.new_eq_ok_iff.mp made
  obtain ⟨printed, -, spelled, -⟩ := exists_of_parseTicket read
  rw [spelled, exact] at accepted
  obtain rfl := Except.ok.inj accepted
  have same : spell ⟨host.iroh.toZ32 printed, trim [], []⟩ = spell peer := own _ spelled.symm
  rw [writeStrOrErr_eq_ok stored, same, untilNul_eq_self whole]

end Spellings

/-! ## The native call -/

section Native

variable {Id Url Address : Type} [DecidableEq Id] {host : Host Id Url Address}
variable {world : Surroundings Id} {ticket name : Text} {peer : Peer}
variable {db middle : Extension.Database Id Address} {target : Target}

/-- The native client uses the spellings of the peer itself. -/
theorem target_of_prepared (lawful : host.iroh.Lawful)
    (exact : ∀ id, host.iroh.parseEndpointId (host.iroh.toZ32 id) = .ok id)
    (offered : Offered host ticket peer)
    (prepared : prepare host world { ticket, name } db = (.ok target, middle)) :
    target = ⟨peer, peer.address, peer.secretName⟩ := by
  obtain ⟨parsed, -, -, addressed, named⟩ := prepare_eq_ok_iff.mp ⟨middle, prepared⟩
  have same := peer_of_parsed lawful offered parsed
  obtain ⟨read, address, secretName⟩ := target
  obtain rfl : read = peer := same
  have absent := nul_notMem_endpointId lawful offered.read
  have address_eq : address = read.address := by
    have returned : qhPeerAddress host.iroh read.endpointId addressLen = .ok address :=
      eq_ok_of_mapError addressed
    rw [qhPeerAddress] at returned
    refine eq_of_spelled lawful exact offered.read Peer.address ?_ ?_ returned
    · intro bare agrees
      rw [Peer.address_eq, Peer.address_eq, agrees]
    · rw [Peer.address_eq, List.mem_append, List.mem_append]
      rintro ((before | inside) | after)
      · exact absurd before (by decide)
      · exact absent inside
      · exact absurd after (by decide)
  have secretName_eq : secretName = read.secretName := by
    have returned : qhPeerSecretName host.iroh read.endpointId secretNameLen = .ok secretName :=
      eq_ok_of_mapError named
    rw [qhPeerSecretName] at returned
    refine eq_of_spelled lawful exact offered.read Peer.secretName ?_ ?_ returned
    · intro bare agrees
      exact congrArg (secretMarker ++ ·) agrees
    · rw [Peer.secretName, List.mem_append]
      rintro (before | inside)
      · exact absurd before (by decide)
      · exact absent inside
  rw [address_eq, secretName_eq]

/-- The token of the peer is filed, if it has one. -/
def filed (peer : Peer) (db : Extension.Database Id Address) : Extension.Database Id Address :=
  if peer.token = [] then db
  else db.putSecret peer.secretName { token := peer.token, scope := peer.address }

/-- The token can be filed, if there is one. -/
def Files (world : Surroundings Id) (peer : Peer) : Prop :=
  peer.token = [] ∨ world.createSecret = .ok ()

/-- The peer can be attached. -/
def Attaches (world : Surroundings Id) (db : Extension.Database Id Address) (name : Text) : Prop :=
  world.attach = .ok () ∧ db.catalogs name = none

omit [DecidableEq Id] in
@[simp]
theorem catalogs_filed (peer : Peer) (db : Extension.Database Id Address) :
    (filed peer db).catalogs = db.catalogs := by
  rw [filed]
  split <;> rfl

omit [DecidableEq Id] in
theorem secrets_filed_of_ne (peer : Peer) (db : Extension.Database Id Address) {other : Text}
    (different : other ≠ peer.secretName) : (filed peer db).secrets other = db.secrets other := by
  rw [filed]
  split
  · rfl
  · exact Function.update_of_ne different _ _

omit [DecidableEq Id] in
theorem fileToken_of_files (files : Files world peer) :
    Extension.fileToken world ⟨peer, peer.address, peer.secretName⟩ middle =
      (.ok (), filed peer middle) := by
  rw [Extension.fileToken, filed]
  by_cases tokenless : peer.token = []
  · rw [if_pos tokenless, if_pos (List.isEmpty_iff.mpr tokenless)]
    rfl
  · rw [if_neg tokenless, if_neg (mt List.isEmpty_iff.mp tokenless),
      files.resolve_left tokenless]
    rfl

omit [DecidableEq Id] in
theorem fileToken_of_not_files (unfiled : ¬ Files world peer) :
    ∃ error, Extension.fileToken world ⟨peer, peer.address, peer.secretName⟩ middle =
      (.error error, middle) := by
  obtain ⟨tokened, refused⟩ := not_or.mp unfiled
  rw [Extension.fileToken, if_neg (mt List.isEmpty_iff.mp tokened)]
  cases asked : world.createSecret with
  | ok done => exact absurd asked refused
  | error err => exact ⟨_, rfl⟩

omit [DecidableEq Id] in
theorem attachOrDrop_of_attaches (attaches : Attaches world db name) :
    Extension.attachOrDrop world ⟨peer, peer.address, peer.secretName⟩ name db =
      (.ok (), { db with catalogs := Function.update db.catalogs name (some peer.address) }) := by
  rw [Extension.attachOrDrop, Extension.attachStatement, attaches.1, attaches.2]

omit [DecidableEq Id] in
theorem attachOrDrop_of_not_attaches (refused : ¬ Attaches world db name) :
    ∃ error, Extension.attachOrDrop world ⟨peer, peer.address, peer.secretName⟩ name db =
      (.error error, if peer.token.isEmpty then db else db.dropSecret peer.secretName) := by
  rw [Extension.attachOrDrop, Extension.attachStatement]
  cases taken : db.catalogs name with
  | some path => exact ⟨_, rfl⟩
  | none =>
      cases asked : world.attach with
      | error err => exact ⟨_, rfl⟩
      | ok done => exact absurd ⟨asked, taken⟩ refused

omit [DecidableEq Id] in
/-- Without a token nothing was filed that could be dropped. -/
theorem drop_filed (peer : Peer) (db : Extension.Database Id Address) :
    (if peer.token.isEmpty then filed peer db else (filed peer db).dropSecret peer.secretName) =
      if peer.token.isEmpty then db else (filed peer db).dropSecret peer.secretName := by
  by_cases tokenless : peer.token = []
  · rw [if_pos (List.isEmpty_iff.mpr tokenless), if_pos (List.isEmpty_iff.mpr tokenless),
      filed, if_pos tokenless]
  · rw [if_neg (mt List.isEmpty_iff.mp tokenless), if_neg (mt List.isEmpty_iff.mp tokenless)]

/-- What the native call comes to after its preparation. -/
inductive Outcome (world : Surroundings Id) (peer : Peer) (name : Text)
    (middle : Extension.Database Id Address) :
    Except Exception AttachRow × Extension.Database Id Address → Prop
  | unfiled {error : Exception} : ¬ Files world peer →
      Outcome world peer name middle (.error error, middle)
  | refused {error : Exception} : Files world peer → ¬ Attaches world middle name →
      Outcome world peer name middle (.error error,
        if peer.token.isEmpty then middle else (filed peer middle).dropSecret peer.secretName)
  | attached : Files world peer → Attaches world middle name →
      Outcome world peer name middle (.ok ⟨name, peer.endpointId, peer.relayUrl⟩,
        { filed peer middle with
          catalogs := Function.update middle.catalogs name (some peer.address) })

/-- Every prepared call has one of these. -/
theorem outcome_of_prepared
    (prepared : prepare host world { ticket, name } db =
      (.ok ⟨peer, peer.address, peer.secretName⟩, middle)) :
    Outcome world peer name middle (quackholeAttach host world { ticket, name } db) := by
  rw [quackholeAttach, Effect.bind_of_ok prepared]
  by_cases files : Files world peer
  · rw [Effect.bind_of_ok (fileToken_of_files files)]
    have free : Attaches world (filed peer middle) name ↔ Attaches world middle name := by
      rw [Attaches, Attaches, catalogs_filed]
    by_cases attaches : Attaches world (filed peer middle) name
    · rw [Effect.bind_of_ok (attachOrDrop_of_attaches attaches), catalogs_filed]
      exact .attached files (free.mp attaches)
    · obtain ⟨error, thrown⟩ : ∃ error, Extension.attachOrDrop world
          ⟨peer, peer.address, peer.secretName⟩ name (filed peer middle) = (.error error, _) :=
        attachOrDrop_of_not_attaches attaches
      rw [Effect.bind_of_error thrown, drop_filed]
      exact .refused files (mt free.mpr attaches)
  · obtain ⟨error, thrown⟩ := fileToken_of_not_files files
    rw [Effect.bind_of_error thrown]
    exact .unfiled files

end Native

/-! ## The call of the session -/

section Browser

variable {Id Url : Type} {iroh : Iroh Id Url} {codec : TicketCodec}
variable {world : Surroundings Id} {session : Session} {ticket name : Text} {peer : Peer}

theorem isOk_iff {answer : Except String Unit} : answer.isOk = true ↔ answer = .ok () := by
  cases answer with
  | ok done => exact iff_of_true rfl rfl
  | error err => exact iff_of_false nofun nofun

/-- A name that is free is the one the remote gets. -/
theorem recordOf_of_free (free : name ∉ session.names) :
    recordOf session.names peer name = ⟨name, peer.endpointId, peer.relayUrl, peer.secretName⟩ := by
  rw [recordOf, uniqueName, if_pos free]

/-- The session has no secret of a peer that is not listed. -/
theorem unfiled_of_unlisted (kept : session.Kept) (unlisted : ¬ session.Lists peer.endpointId) :
    session.db.secrets peer.secretName = none := by
  by_contra there
  exact unlisted (kept.accounted peer.endpointId there)

/-- Nothing but DuckDB can refuse the secret of a peer that is not listed. -/
theorem creates_iff (kept : session.Kept) (unlisted : ¬ session.Lists peer.endpointId)
    (free : name ∉ session.names) :
    session.Creates (answers world) peer (recordOf session.names peer name) ↔
      Files world peer := by
  rw [recordOf_of_free free]
  apply or_congr_right
  rw [← isOk_iff]
  exact and_iff_left (unfiled_of_unlisted kept unlisted)

theorem notMem_names_iff {db : Remotes.Database} :
    name ∉ db.names ↔ db.catalogs.lookup name = none := by
  rw [List.lookup_eq_none_iff, Remotes.Database.names, List.mem_map]
  constructor
  · intro absent catalog member
    rw [bne_iff_ne]
    rintro rfl
    exact absent ⟨catalog, member, rfl⟩
  · rintro absent ⟨catalog, member, rfl⟩
    exact bne_iff_ne.mp (absent catalog member) rfl

theorem attaches_iff (free : name ∉ session.names) :
    session.Attaches (answers world) peer (recordOf session.names peer name) ↔
      world.attach = .ok () ∧ session.db.catalogs.lookup name = none := by
  rw [recordOf_of_free free, ← notMem_names_iff, ← isOk_iff]
  rfl

/-- DROP SECRET IF EXISTS is not refused. -/
theorem cleanUp_answers (record : Record) (failed : Statement) :
    session.cleanUp (answers world) record failed =
      (.error (.refused failed),
        { session with db := session.db.putSecret record.secretName none }) := by
  have asked : answers world (.dropSecret record.secretName) = true := rfl
  rw [Session.cleanUp, query_dropSecret, if_pos asked]

/-- The peer is attached. -/
theorem attach_of_attaches (read : Peer.parseTicket iroh codec ticket = .ok peer)
    (kept : session.Kept) (unlisted : ¬ session.Lists peer.endpointId)
    (free : name ∉ session.names) (files : Files world peer)
    (attaches : world.attach = .ok () ∧ session.db.catalogs.lookup name = none) :
    let record : Record := ⟨name, peer.endpointId, peer.relayUrl, peer.secretName⟩
    session.attach iroh codec (answers world) ticket name =
      (.ok record, (session.filed peer record).attached peer record) := by
  rw [attach_eq read unlisted]
  dsimp only
  rw [if_pos ((creates_iff kept unlisted free).mpr files), attachRecord_eq,
    if_pos ((attaches_filed _ _ _).mpr ((attaches_iff free).mpr attaches)),
    recordOf_of_free free]

/-- The peer is not attached, and its secret is dropped. -/
theorem attach_of_not_attaches (read : Peer.parseTicket iroh codec ticket = .ok peer)
    (kept : session.Kept) (unlisted : ¬ session.Lists peer.endpointId)
    (free : name ∉ session.names)
    (refused : Files world peer →
      ¬ (world.attach = .ok () ∧ session.db.catalogs.lookup name = none)) :
    ∃ thrown, session.attach iroh codec (answers world) ticket name =
      (.error thrown, { session with db := session.db.putSecret peer.secretName none }) := by
  rw [attach_eq read unlisted]
  dsimp only
  by_cases files : Files world peer
  · have unattached : ¬ session.Attaches (answers world) peer (recordOf session.names peer name) :=
      mt (attaches_iff free).mp (refused files)
    rw [if_pos ((creates_iff kept unlisted free).mpr files), attachRecord_eq,
      if_neg (mt (attaches_filed _ _ _).mp unattached)]
    refine ⟨_, Prod.ext rfl ?_⟩
    rw [cleanUp_filed _ (Or.inr rfl), cleanUp_answers]
    rfl
  · rw [if_neg (mt (creates_iff kept unlisted free).mp files), cleanUp_answers]
    exact ⟨_, rfl⟩

end Browser

/-! ## What the session holds then -/

section Holds

variable (session : Session) (peer : Peer) (record : Record)

@[simp]
theorem remotes_filed : (session.filed peer record).remotes = session.remotes := by
  rw [Session.filed]
  split <;> rfl

@[simp]
theorem localName_filed : (session.filed peer record).localName = session.localName := by
  rw [Session.filed]
  split <;> rfl

@[simp]
theorem catalogs_db_filed : (session.filed peer record).db.catalogs = session.db.catalogs := by
  rw [Session.filed]
  split <;> rfl

theorem secrets_db_filed (other : Text) (different : other ≠ record.secretName) :
    (session.filed peer record).db.secrets other = session.db.secrets other := by
  rw [Session.filed]
  split
  · rfl
  · exact Function.update_of_ne different _ _

end Holds

/-! ## Step by step -/

section Steps

variable {Id Url Address : Type} [DecidableEq Id] {host : Host Id Url Address}
variable {both both' : Both Id Address}

/-- What holds along a run, besides that the two are alike: the secrets of the session are
accounted for, each listed remote has its catalog, and no name is listed twice. -/
structure Together (both : Both Id Address) : Prop extends Alike both where
  kept : both.session.Kept
  present : ∀ record ∈ both.session.remotes, record.name ∈ both.session.db.names
  distinct : both.session.names.Nodup

/-- A listed remote has not the secret of a peer that is not listed. -/
theorem secretName_ne {session : Session} {peer : Peer} (kept : session.Kept)
    (unlisted : ¬ session.Lists peer.endpointId) {record : Record}
    (member : record ∈ session.remotes) : record.secretName ≠ peer.secretName := by
  rw [kept.named record member]
  intro same
  exact unlisted ⟨record, member, List.append_cancel_left same⟩

omit [DecidableEq Id] in
/-- The secret of the peer is the same in both, whether its token was filed or there is none. -/
theorem secrets_filed_self {session : Session} {native : Extension.Database Id Address}
    {peer : Peer} {record : Record} (named : record.secretName = peer.secretName)
    (unfiled : session.db.secrets peer.secretName = none)
    (tokened : peer.token ≠ [] ∨ native.secrets peer.secretName = none) :
    (filed peer native).secrets peer.secretName =
      (session.filed peer record).db.secrets peer.secretName := by
  rw [filed, Session.filed, named]
  by_cases tokenless : peer.token = []
  · rw [if_pos tokenless, if_pos tokenless, unfiled]
    exact tokened.resolve_left (not_not_intro tokenless)
  · rw [if_neg tokenless, if_neg tokenless]
    have own : (native.putSecret peer.secretName ⟨peer.token, peer.address⟩).secrets
        peer.secretName = some ⟨peer.token, peer.address⟩ := Function.update_self ..
    have browser : (session.db.putSecret peer.secretName
        (some ⟨peer.token, peer.address⟩)).secrets peer.secretName =
          some ⟨peer.token, peer.address⟩ := Function.update_self ..
    exact own.trans browser.symm

omit [DecidableEq Id] in
/-- Where the attach fails in both, nothing that is listed is touched. -/
theorem Together.failed (together : Together both) {peer : Peer}
    (unlisted : ¬ both.session.Lists peer.endpointId) {native : Extension.Database Id Address}
    (catalogs : native.catalogs = both.native.catalogs)
    (secrets : ∀ other ≠ peer.secretName, native.secrets other = both.native.secrets other) :
    Together ⟨native, { both.session with
      db := both.session.db.putSecret peer.secretName none }⟩ where
  catalogs name := by
    rw [catalogs]
    exact together.catalogs name
  secrets record member := by
    have different := secretName_ne together.kept unlisted member
    rw [secrets _ different, together.secrets record member]
    exact (Function.update_of_ne different _ _).symm
  kept := together.kept.dropSecret peer.secretName
  present := together.present
  distinct := together.distinct

omit [DecidableEq Id] in
/-- Where it succeeds, the remote is listed with the secret that was filed. -/
theorem Together.attached (together : Together both) {peer : Peer} {name : Text}
    (unlisted : ¬ both.session.Lists peer.endpointId) (free : name ∉ both.session.names)
    (unattached : both.session.db.catalogs.lookup name = none)
    (tokened : peer.token ≠ [] ∨ both.native.secrets peer.secretName = none)
    {middle : Extension.Database Id Address} (secrets : middle.secrets = both.native.secrets)
    (catalogs : middle.catalogs = both.native.catalogs) :
    let record : Record := ⟨name, peer.endpointId, peer.relayUrl, peer.secretName⟩
    Together
      { native := { filed peer middle with
          catalogs := Function.update middle.catalogs name (some peer.address) }
        session := (both.session.filed peer record).attached peer record } := by
  intro record
  have accounted : ((both.session.filed peer record).attached peer record).Kept := by
    have made : recordOf both.session.names peer name = record := recordOf_of_free free
    rw [← made]
    exact together.kept.attached_filed unlisted
  have member_iff : ∀ other,
      other ∈ ((both.session.filed peer record).attached peer record).remotes ↔
        other ∈ both.session.remotes ∨ other = record := by
    intro other
    rw [Session.attached, remotes_filed, List.mem_append, List.mem_singleton]
  constructor
  · constructor
    · intro other
      change Function.update middle.catalogs name (some peer.address) other =
        ((both.session.filed peer record).db.catalogs ++ [(name, peer.address)]).lookup other
      rw [catalogs_db_filed, List.lookup_append, catalogs]
      by_cases own : other = name
      · rw [own, Function.update_self, unattached, List.lookup_cons_self]
        rfl
      · rw [Function.update_of_ne own, together.catalogs, List.lookup_cons,
          beq_eq_false_iff_ne.mpr own]
        exact (Option.or_none).symm
    · intro other member
      change (filed peer middle).secrets other.secretName =
        (both.session.filed peer record).db.secrets other.secretName
      rcases (member_iff other).mp member with old | rfl
      · have different := secretName_ne together.kept unlisted old
        rw [secrets_filed_of_ne _ _ different, secrets_db_filed _ _ _ _ different, secrets,
          together.secrets other old]
      · rw [← secrets] at tokened
        exact secrets_filed_self rfl (unfiled_of_unlisted together.kept unlisted) tokened
  · exact accounted
  · intro other member
    rw [Session.attached, Database.names_addCatalog, List.mem_append, List.mem_singleton]
    rcases (member_iff other).mp member with old | rfl
    · left
      have there := together.present other old
      rwa [Database.names, ← catalogs_db_filed] at there
    · exact Or.inr rfl
  · rw [Session.names, Session.attached, localName_filed, remotes_filed, List.map_append,
      ← List.cons_append]
    apply List.Nodup.append together.distinct (List.nodup_singleton _)
    intro other old new
    obtain rfl := List.mem_singleton.mp new
    exact free old

/-- One move keeps them alike. -/
theorem Together.attach (lawful : host.iroh.Lawful)
    (exact : ∀ id, host.iroh.parseEndpointId (host.iroh.toZ32 id) = .ok id)
    (together : Together both) {ticket name : Text} {world : Surroundings Id} {peer : Peer}
    (fitting : Fitting host both ticket name world peer) :
    Agree (quackholeAttach host world { ticket, name } both.native).1
        (both.session.attach host.iroh host.codec (answers world) ticket name).1 ∧
      Together
        ⟨(quackholeAttach host world { ticket, name } both.native).2,
          (both.session.attach host.iroh host.codec (answers world) ticket name).2⟩ := by
  obtain ⟨target, middle, prepared⟩ := fitting.prepared
  obtain rfl := target_of_prepared lawful exact fitting.offered prepared
  have kept := keeps_prepare host world { ticket, name } both.native
  rw [prepared] at kept
  obtain ⟨secrets, catalogs⟩ := Prod.mk.inj kept
  have same : Attaches world middle name ↔
      world.attach = .ok () ∧ both.session.db.catalogs.lookup name = none := by
    rw [Attaches, catalogs, together.catalogs]
  have read := fitting.offered.read
  have outcome := outcome_of_prepared prepared
  generalize quackholeAttach host world { ticket, name } both.native = result at outcome
  cases outcome with
  | unfiled unfiled =>
      obtain ⟨thrown, failed⟩ := attach_of_not_attaches read together.kept fitting.unlisted
        fitting.free fun files => absurd files unfiled
      rw [failed]
      exact ⟨.thrown, together.failed fitting.unlisted catalogs fun other _ =>
        congrFun secrets other⟩
  | refused files unattached =>
      obtain ⟨thrown, failed⟩ := attach_of_not_attaches read together.kept fitting.unlisted
        fitting.free fun _ => mt same.mpr unattached
      rw [failed]
      refine ⟨.thrown, together.failed fitting.unlisted ?_ ?_⟩
      · split
        · exact catalogs
        · exact (catalogs_filed peer middle).trans catalogs
      · intro other different
        split
        · exact congrFun secrets other
        · have dropped : ((filed peer middle).dropSecret peer.secretName).secrets other =
              (filed peer middle).secrets other := Function.update_of_ne different _ _
          rw [secrets_filed_of_ne _ _ different] at dropped
          exact dropped.trans (congrFun secrets other)
  | attached files attaches =>
      have asked := same.mp attaches
      rw [attach_of_attaches read together.kept fitting.unlisted fitting.free files asked]
      exact ⟨.returned rfl rfl rfl, together.attached fitting.unlisted fitting.free asked.2
        fitting.tokened secrets catalogs⟩

/-- What is left of a session when a listed remote is detached. -/
theorem detach_eq {session : Session} {record : Record} (present : record.name ∈ session.db.names) :
    session.detach (fun _ => true) record =
      { session with
        remotes := stillLive (session.db.removeCatalog record.name).names session.remotes
        db := (session.db.removeCatalog record.name).putSecret record.secretName none } := by
  rw [Session.detach, query_detach, if_pos ⟨rfl, present⟩, query_dropSecret, if_pos rfl,
    reconcile_of_accepts]
  rfl

theorem lookup_filter_ne (entries : List (Text × Text)) (name other : Text) :
    (entries.filter (·.1 ≠ name)).lookup other =
      if other = name then none else entries.lookup other := by
  induction entries with
  | nil => simp
  | cons entry entries ih =>
      obtain ⟨key, value⟩ := entry
      rw [lookup_cons_eq]
      by_cases removed : key = name
      · rw [List.filter_cons_of_neg (by simp [removed]), ih]
        by_cases own : other = name
        · rw [if_pos own, if_pos own]
        · rw [if_neg own, if_neg own, if_neg (removed ▸ own)]
      · rw [List.filter_cons_of_pos (by simp [removed]), lookup_cons_eq, ih]
        by_cases found : other = key
        · rw [if_pos found, if_pos found, if_neg (found ▸ removed)]
        · rw [if_neg found, if_neg found]

omit [DecidableEq Id] in
/-- Detaching a listed remote keeps them alike. -/
theorem Together.detach (host : Host Id Url Address) (together : Together both) {record : Record}
    (member : record ∈ both.session.remotes) :
    Together ⟨detachTyped record.name both.native,
      both.session.detach (fun _ => true) record⟩ := by
  have names := List.nodup_cons.mp together.distinct
  have sole : ∀ other ∈ both.session.remotes, other.name = record.name → other = record :=
    fun other listed same => List.inj_on_of_nodup_map names.2 listed member same
  have kept : (both.session.detach (fun _ => true) record).Kept := by
    have tidy : Tidy host.iroh host.codec (.detach record, fun _ => true) both.session := by
      intro _ other listed same
      rw [sole other listed same]
      exact Or.inr ⟨rfl, rfl⟩
    exact together.kept.detach tidy
  rw [detach_eq (together.present record member)] at kept ⊢
  constructor
  · constructor
    · intro other
      change Function.update both.native.catalogs record.name none other =
        (both.session.db.removeCatalog record.name).catalogs.lookup other
      rw [Database.removeCatalog, lookup_filter_ne]
      by_cases own : other = record.name
      · rw [if_pos own, own, Function.update_self]
      · rw [if_neg own, Function.update_of_ne own, together.catalogs]
    · intro other left
      obtain ⟨listed, live⟩ := List.mem_filter.mp left
      have renamed := ((Database.mem_names_removeCatalog _).mp (of_decide_eq_true live)).2
      have different : other.secretName ≠ record.secretName := by
        rw [together.kept.named other listed, together.kept.named record member]
        intro same
        have peers := List.append_cancel_left same
        rw [List.inj_on_of_nodup_map together.kept.distinct listed member peers] at renamed
        exact renamed rfl
      exact (together.secrets other listed).trans (Function.update_of_ne different _ _).symm
  · exact kept
  · intro other left
    exact of_decide_eq_true (List.mem_filter.mp left).2
  · exact List.Nodup.sublist ((List.filter_sublist.map _).cons_cons _) together.distinct

/-- Every proper move keeps them alike. -/
theorem Together.step (lawful : host.iroh.Lawful)
    (exact : ∀ id, host.iroh.parseEndpointId (host.iroh.toZ32 id) = .ok id)
    (together : Together both) {move : Move Id} (proper : Proper host move both)
    (moved : next host move both = some both') : Together both' := by
  cases moved
  cases move with
  | attach ticket name world =>
      obtain ⟨peer, fitting⟩ := proper
      exact (together.attach lawful exact fitting).2
  | detach record => exact Together.detach host together proper

omit [DecidableEq Id] in
/-- In a new session, in a database with the same catalogs and whatever secrets. -/
theorem together_of_fresh (fresh : Fresh both.session)
    (catalogs : ∀ name, both.native.catalogs name = both.session.db.catalogs.lookup name) :
    Together both where
  catalogs := catalogs
  secrets := by
    rw [fresh.1]
    exact nofun
  kept := fresh.kept
  present := by
    rw [fresh.1]
    exact nofun
  distinct := by
    rw [Session.names, fresh.1]
    exact List.nodup_singleton _

/-- After any proper moves the two are alike, and the next proper one comes to the same. -/
theorem alike_of_run {start : Both Id Address} (lawful : host.iroh.Lawful)
    (exact : ∀ id, host.iroh.parseEndpointId (host.iroh.toZ32 id) = .ok id)
    (fresh : Fresh start.session)
    (catalogs : ∀ name, start.native.catalogs name = start.session.db.catalogs.lookup name)
    (run : Run (next host) (Proper host) start both) :
    Alike both ∧ ∀ move, Proper host move both → Concur host move both := by
  have together : Together both := run.invariant Together (together_of_fresh fresh catalogs)
    fun _ _ _ proper together moved => together.step lawful exact proper moved
  refine ⟨together.toAlike, fun move proper => ?_⟩
  cases move with
  | attach ticket name world =>
      obtain ⟨peer, fitting⟩ := proper
      exact (together.attach lawful exact fitting).1
  | detach record => trivial

end Steps

/-! ## A peer that is attached again -/

/-- Two databases with their own catalog only. -/
def soleBoth : Both Unit Text where
  native := { catalogs := fun name => soleSession.db.catalogs.lookup name }
  session := soleSession

/-- The peer of the ticket. -/
def solePeer : Peer :=
  ⟨Extension.soleId, "https://relay.example/".toList, "token".toList⟩

def soleRecord : Record :=
  ⟨"remote".toList, solePeer.endpointId, solePeer.relayUrl, solePeer.secretName⟩

def soleAttach : Move Unit :=
  .attach Extension.soleTicket "remote".toList Extension.soleWorld

/-- What a move makes of both. -/
def Move.result (host : Host Unit Text Text) (move : Move Unit) (both : Both Unit Text) :
    Both Unit Text where
  native := move.native host both.native
  session := both.session.call host.iroh host.codec move.call.2 move.call.1

/-- The peer is attached in both. -/
def soleAttached : Both Unit Text :=
  soleAttach.result Extension.soleHost soleBoth

/-- It is detached again. -/
def soleDetached : Both Unit Text :=
  Move.result Extension.soleHost (.detach soleRecord) soleAttached

theorem offered_soleTicket : Offered Extension.soleHost Extension.soleTicket solePeer where
  whole := by decide +kernel
  read := by decide +kernel
  relay := by decide
  token := by decide

theorem exists_of_isOk {ε α σ : Type} {result : Except ε α × σ} (returned : result.1.isOk = true) :
    ∃ value state, result = (.ok value, state) := by
  obtain ⟨error | value, state⟩ := result
  · cases returned
  · exact ⟨value, state, rfl⟩

/-- The secret that the native client left behind is replaced. -/
theorem alike_of_run_sample :
    soleDetached.native.secrets solePeer.secretName ≠ none ∧
      soleDetached.session.db.secrets solePeer.secretName = none ∧ Alike soleDetached ∧
      Concur Extension.soleHost soleAttach soleDetached := by
  have attach : Proper Extension.soleHost soleAttach soleBoth := by
    refine ⟨solePeer, offered_soleTicket, exists_of_isOk ?_, ?_, ?_, Or.inl ?_⟩
    · decide +kernel
    · decide +kernel
    · rintro ⟨record, member, -⟩
      cases member
    · decide
  have detach : Proper Extension.soleHost (.detach soleRecord) soleAttached := by
    have listed : soleRecord ∈ soleAttached.session.remotes := by decide +kernel
    exact listed
  have first : next Extension.soleHost soleAttach soleBoth = some soleAttached := rfl
  have second : next Extension.soleHost (.detach soleRecord) soleAttached = some soleDetached := rfl
  have run : Run (next Extension.soleHost) (Proper Extension.soleHost) soleBoth soleDetached :=
    (Run.single attach first).tail detach second
  have empty : soleDetached.session.remotes = [] := by decide +kernel
  have again : Proper Extension.soleHost soleAttach soleDetached := by
    refine ⟨solePeer, offered_soleTicket, exists_of_isOk ?_, ?_, ?_, Or.inl ?_⟩
    · decide +kernel
    · decide +kernel
    · rintro ⟨record, member, -⟩
      rw [empty] at member
      cases member
    · decide
  have exact : ∀ id, Extension.soleHost.iroh.parseEndpointId (Extension.soleHost.iroh.toZ32 id) =
      .ok id := by
    rintro ⟨⟩
    decide +kernel
  obtain ⟨alike, agree⟩ := alike_of_run Extension.lawful_soleHost.iroh exact
    ⟨rfl, fun _ => rfl⟩ (fun _ => rfl) run
  refine ⟨?_, ?_, alike, agree soleAttach again⟩
  · decide +kernel
  · decide +kernel

end Quackhole.Web.Alongside
