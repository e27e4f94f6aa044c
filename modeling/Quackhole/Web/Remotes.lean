import Quackhole.Extension.State

/-!
# A session with remotes

`QuackholeSession`: the remotes attached into one DuckDB, and the list of them.
The list, the catalogs of DuckDB and its secrets are three things, which the calls
keep in step by the statements they issue.  Here each call runs alone; what DuckDB
makes of a statement, besides what follows from its state, is part of the call.
-/

namespace Quackhole.Web.Remotes

open Quackhole.Word Quackhole.Ticket
open Quackhole.Extension (Secret)

/-- What DuckDB holds: its secrets, and its catalogs by name and path. -/
structure Database where
  secrets : Text → Option Secret := fun _ => none
  catalogs : List (Text × Text) := []

/-- The statements a session issues. -/
inductive Statement where
  | createSecret (name token scope : Text)
  | attach (path name : Text)
  | detach (name : Text)
  /-- `DROP SECRET IF EXISTS`. -/
  | dropSecret (name : Text)
  /-- `SELECT database_name FROM duckdb_databases()`. -/
  | databaseNames
deriving DecidableEq

/-- What a statement that was not refused returns. -/
inductive Reply where
  | done
  | names (live : List Text)
deriving DecidableEq

namespace Database

variable (db : Database)

def names : List Text :=
  db.catalogs.map Prod.fst

def putSecret (name : Text) (secret : Option Secret) : Database :=
  { db with secrets := Function.update db.secrets name secret }

def addCatalog (path name : Text) : Database :=
  { db with catalogs := db.catalogs ++ [(name, path)] }

def removeCatalog (name : Text) : Database :=
  { db with catalogs := db.catalogs.filter (·.1 ≠ name) }

/-- Execute a statement.  DuckDB refuses a secret or a catalog under a name that is
taken and the detaching of a catalog that is not there, and may refuse any statement
for a reason of its own. -/
def execute (accepts : Bool) : Statement → Option Reply × Database
  | .createSecret name token scope =>
      if accepts ∧ db.secrets name = none then
        (some .done, db.putSecret name (some ⟨token, scope⟩))
      else (none, db)
  | .attach path name =>
      if accepts ∧ name ∉ db.names then (some .done, db.addCatalog path name) else (none, db)
  | .detach name =>
      if accepts ∧ name ∈ db.names then (some .done, db.removeCatalog name) else (none, db)
  | .dropSecret name => if accepts then (some .done, db.putSecret name none) else (none, db)
  | .databaseNames => if accepts then (some (.names db.names), db) else (none, db)

@[simp]
theorem secrets_putSecret (name : Text) (secret : Option Secret) :
    (db.putSecret name secret).secrets = Function.update db.secrets name secret :=
  rfl

@[simp]
theorem names_putSecret (name : Text) (secret : Option Secret) :
    (db.putSecret name secret).names = db.names :=
  rfl

@[simp]
theorem secrets_addCatalog (path name : Text) : (db.addCatalog path name).secrets = db.secrets :=
  rfl

@[simp]
theorem names_addCatalog (path name : Text) : (db.addCatalog path name).names = db.names ++ [name] :=
  List.map_append

@[simp]
theorem secrets_removeCatalog (name : Text) : (db.removeCatalog name).secrets = db.secrets :=
  rfl

theorem mem_names_removeCatalog {name other : Text} :
    other ∈ (db.removeCatalog name).names ↔ other ∈ db.names ∧ other ≠ name := by
  rw [names, names, removeCatalog, List.mem_map, List.mem_map]
  constructor
  · rintro ⟨catalog, member, rfl⟩
    rcases List.mem_filter.mp member with ⟨inside, different⟩
    exact ⟨⟨catalog, inside, rfl⟩, of_decide_eq_true different⟩
  · rintro ⟨⟨catalog, inside, rfl⟩, different⟩
    exact ⟨catalog, List.mem_filter.mpr ⟨inside, decide_eq_true different⟩, rfl⟩

section Execute

variable {db} {accepts : Bool} {reply : Reply}

/-- A secret that was created is as the statement says. -/
theorem secrets_of_created {name token scope : Text}
    (done : (db.execute accepts (.createSecret name token scope)).1 = some reply) :
    (db.execute accepts (.createSecret name token scope)).2.secrets name = some ⟨token, scope⟩ := by
  rw [execute] at done ⊢
  split
  · exact Function.update_self _ _ _
  · rename_i refused
    rw [if_neg refused] at done
    cases done

/-- A name under which a catalog was attached was free, and no longer is. -/
theorem names_of_attached {path name : Text}
    (done : (db.execute accepts (.attach path name)).1 = some reply) :
    name ∉ db.names ∧ name ∈ (db.execute accepts (.attach path name)).2.names := by
  rw [execute] at done ⊢
  split
  · rename_i free
    rw [names_addCatalog]
    exact ⟨free.2, List.mem_append.mpr (Or.inr List.mem_cons_self)⟩
  · rename_i refused
    rw [if_neg refused] at done
    cases done

/-- A secret changes where it is created or dropped. -/
theorem secrets_execute (statement : Statement) {name : Text}
    (created : ∀ token scope, statement ≠ .createSecret name token scope)
    (dropped : statement ≠ .dropSecret name) :
    (db.execute accepts statement).2.secrets name = db.secrets name := by
  cases statement with
  | createSecret other token scope =>
      have different : name ≠ other := by
        rintro rfl
        exact created token scope rfl
      rw [execute]
      split
      · exact Function.update_of_ne different _ _
      · rfl
  | dropSecret other =>
      have different : name ≠ other := by
        rintro rfl
        exact dropped rfl
      rw [execute]
      split
      · exact Function.update_of_ne different _ _
      · rfl
  | _ =>
      rw [execute]
      split <;> rfl

/-- A name stays, unless its catalog is detached. -/
theorem mem_names_execute {statement : Statement} {name : Text} (member : name ∈ db.names)
    (stays : accepts = true → statement ≠ .detach name) :
    name ∈ (db.execute accepts statement).2.names := by
  cases statement with
  | attach path other =>
      rw [execute]
      split
      · rw [names_addCatalog]
        exact List.mem_append.mpr (Or.inl member)
      · exact member
  | detach other =>
      rw [execute]
      split
      · rename_i detached
        apply (mem_names_removeCatalog db).mpr
        refine ⟨member, ?_⟩
        rintro rfl
        exact stays detached.1 rfl
      · exact member
  | _ =>
      rw [execute]
      split <;> exact member

end Execute

end Database

/-- The record of a remote. -/
structure Record where
  name : Text
  endpointId : Text
  relayUrl : Text
  secretName : Text
deriving DecidableEq

/-- A session.  The local database is listed first and is never removed. -/
structure Session where
  localName : Text
  remotes : List Record := []
  db : Database := {}

/-- The names in `connections`. -/
def Session.names (session : Session) : List Text :=
  session.localName :: session.remotes.map Record.name

/-! ## Names -/

/-- The first of `base2`, `base3`, … from a number on that is not taken.  Some name
among as many as there are taken ones, and one more, is free. -/
def firstFree (taken : List Text) (base : Text) : Nat → Nat → Text
  | 0, n => base ++ decimal n
  | fuel + 1, n =>
      if base ++ decimal n ∉ taken then base ++ decimal n else firstFree taken base fuel (n + 1)

/-- The catalog name a remote gets attached as. -/
def uniqueName (taken : List Text) (base : Text) : Text :=
  if base ∉ taken then base else firstFree taken base taken.length 2

theorem decimal_injective {m n : Nat} (same : decimal m = decimal n) : m = n := by
  have first := digitsValue_decimal m
  rw [same, digitsValue_decimal n] at first
  exact (Option.some.inj first).symm

/-- Either a free name is found, or all that were tried are taken. -/
theorem firstFree_notMem_or (taken : List Text) (base : Text) (fuel n : Nat) :
    firstFree taken base fuel n ∉ taken ∨ ∀ k ≤ fuel, base ++ decimal (n + k) ∈ taken := by
  induction fuel generalizing n with
  | zero =>
      by_cases free : base ++ decimal n ∈ taken
      · apply Or.inr
        intro k small
        rw [Nat.le_zero.mp small]
        exact free
      · exact Or.inl free
  | succ fuel ih =>
      rw [firstFree]
      by_cases free : base ++ decimal n ∈ taken
      · rw [if_neg (not_not_intro free)]
        rcases ih (n + 1) with found | all
        · exact Or.inl found
        · apply Or.inr
          rintro (_ | k) small
          · exact free
          · have rest := all k (Nat.le_of_succ_le_succ small)
            rw [Nat.add_right_comm] at rest
            exact rest
      · rw [if_pos free]
        exact Or.inl free

/-- The name a remote gets is not taken. -/
theorem uniqueName_notMem (taken : List Text) (base : Text) : uniqueName taken base ∉ taken := by
  rw [uniqueName]
  split
  · assumption
  · rcases firstFree_notMem_or taken base taken.length 2 with found | all
    · exact found
    · have tried : ((List.range (taken.length + 1)).map fun k => base ++ decimal (2 + k)).Nodup := by
        apply List.Nodup.map
        · intro j k same
          exact Nat.add_left_cancel (decimal_injective (List.append_cancel_left same))
        · exact List.nodup_range
      have inside : ((List.range (taken.length + 1)).map fun k => base ++ decimal (2 + k)) ⊆
          taken := by
        intro name member
        rcases List.mem_map.mp member with ⟨k, small, rfl⟩
        exact all k (Nat.le_of_lt_succ (List.mem_range.mp small))
      have more := (List.subperm_of_subset tried inside).length_le
      rw [List.length_map, List.length_range] at more
      exact absurd more (Nat.not_succ_le_self _)

/-! ## The calls -/

/-- What a call throws: a message of its own, or the error of a refused statement. -/
inductive Thrown where
  | message (text : String)
  | refused (statement : Statement)
deriving DecidableEq

/-- Whether DuckDB has a reason of its own to refuse a statement. -/
abbrev Accepts := Statement → Bool

/-- A call on a session.  A statement typed by the user is one, too.  An object is
what stands for a record where it is passed. -/
inductive Call (Object : Type) where
  | attach (ticket name : Text)
  | detach (object : Object)
  | reconcile
  /-- `DETACH`, typed by the user. -/
  | typed (name : Text)
deriving DecidableEq

/-- The remotes whose catalogs are among the live ones. -/
def stillLive (live : List Text) (remotes : List Record) : List Record :=
  remotes.filter fun record => record.name ∈ live

section Calls

variable {Id Url : Type} (iroh : Iroh Id Url) (codec : TicketCodec)

/-- The record of a peer that is about to be attached. -/
def recordOf (names : List Text) (peer : Peer) (name : Text) : Record where
  name := uniqueName names name
  endpointId := peer.endpointId
  relayUrl := peer.relayUrl
  secretName := peer.secretName

/-- File the token of a peer, for its address. -/
def createStatement (peer : Peer) (record : Record) : Statement :=
  .createSecret record.secretName peer.token peer.address

def attachStatement (peer : Peer) (record : Record) : Statement :=
  .attach peer.address record.name

/-- The message for a peer that is attached already. -/
def alreadyAttached (already : Record) : Thrown :=
  .message ("That DuckDB is already attached, as \"" ++ String.ofList already.name ++ "\".")

namespace Session

variable (accepts : Accepts) (session : Session)

/-- `this.conn.query`, when no other call is in progress. -/
def query (statement : Statement) : Option Reply × Session :=
  let executed := session.db.execute (accepts statement) statement
  (executed.1, { session with db := executed.2 })

/-- Take the secret back out, and throw. -/
def cleanUp (record : Record) (failed : Statement) : Except Thrown Record × Session :=
  (.error (.refused failed), (session.query accepts (.dropSecret record.secretName)).2)

/-- `attach`, from its ATTACH on. -/
def attachRecord (peer : Peer) (record : Record) : Except Thrown Record × Session :=
  match session.query accepts (attachStatement peer record) with
  | (some _, session) => (.ok record, { session with remotes := session.remotes ++ [record] })
  | (none, session) => session.cleanUp accepts record (attachStatement peer record)

/-- `attach`: attach the remote a ticket names. -/
def attach (ticket name : Text) : Except Thrown Record × Session :=
  match Peer.parseTicket iroh codec ticket with
  | .error message => (.error (.message message), session)
  | .ok peer =>
      match session.remotes.find? (·.endpointId = peer.endpointId) with
      | some already => (.error (alreadyAttached already), session)
      | none =>
          let record := recordOf session.names peer name
          if peer.token.isEmpty then session.attachRecord accepts peer record
          else
            match session.query accepts (createStatement peer record) with
            | (some _, session) => session.attachRecord accepts peer record
            | (none, session) => session.cleanUp accepts record (createStatement peer record)

/-- `reconcile`: drop remotes that are no longer attached.  `tables` does the same,
and then reads. -/
def reconcile : Session :=
  match session.query accepts .databaseNames with
  | (some (.names live), session) =>
      { session with remotes := stillLive live session.remotes }
  | (_, session) => session

/-- `detach`: detach a remote and give its name back. -/
def detach (record : Record) : Session :=
  let detached := (session.query accepts (.detach record.name)).2
  let dropped := (detached.query accepts (.dropSecret record.secretName)).2
  dropped.reconcile accepts

/-- A call that runs alone. -/
def call : Call Record → Session
  | .attach ticket name => (session.attach iroh codec accepts ticket name).2
  | .detach record => session.detach accepts record
  | .reconcile => session.reconcile accepts
  | .typed name => (session.query accepts (.detach name)).2

end Session

end Calls

/-! ## Two peers -/

/-- The printed ids of two peers. -/
def pairId (second : Bool) : Text :=
  (if second then "47pjoycnsrfmxikm95jh13y88e8qnhzu5kungjpxyepgt7a8krpy"
    else "et8u6wsyz7qiqm1pb5q3zgny43oro4gbr8rkfdkskpts7mtmehwy").toList

/-- An iroh that knows these two. -/
def pairIroh : Iroh Bool Text where
  fromStr _ := none
  fromZ32 text := if text = pairId true then some true
    else if text = pairId false then some false else none
  toZ32 := pairId
  parseUrl := some
  scheme url := url.takeWhile (· ≠ ':')
  urlText url := url

/-- A ticket for one of the two. -/
def pairTicket (second : Bool) (token : Text) : Text :=
  ticketMarker ++ TicketCodec.json.encode (utf8
    (TicketCodec.json.toString ⟨pairId second, "https://relay.example/".toList, token⟩))

/-- The peer the ticket names. -/
def pairPeer (second : Bool) (token : Text) : Peer :=
  ⟨pairId second, "https://relay.example/".toList, token⟩

/-- A session over a database that has its own catalog only. -/
def soleSession : Session where
  localName := "memory".toList
  db := { catalogs := [("memory".toList, ":memory:".toList)] }

end Quackhole.Web.Remotes
