import Quackhole.Ticket.Handoff
import Quackhole.Transition.Labelled
import Quackhole.Word.Ascending
import Mathlib.Data.List.Count

/-!
# The status of the extension

The core remembers every peer it dialled or accepted, and `quackhole_status`
shows them one to a row.  It counts the peers once and then asks for one row at
a time, and every one of these calls looks at the peers as they are by then,
sorted by id.  The accept loop and the dial side go on recording peers meanwhile.
-/

namespace Quackhole.Extension

open Quackhole.Word Quackhole.Ticket Quackhole.Transition

/-- The transport of a connection, as far as it was seen. -/
inductive PeerPath where
  | direct
  | relay
  | unknown
deriving DecidableEq

def PeerPath.text : PeerPath → Text
  | direct => "direct".toList
  | relay => "relay".toList
  | unknown => "unknown".toList

/-- Which side opened the first connection. -/
inductive Direction where
  | inbound
  | outbound
deriving DecidableEq

def Direction.text : Direction → Text
  | inbound => "in".toList
  | outbound => "out".toList

structure PeerEntry where
  path : PeerPath
  direction : Direction
deriving DecidableEq

/-- The known peers, each under its own id. -/
structure PeerMap (Id : Type) where
  entries : List (Id × PeerEntry)
  distinct : (entries.map Prod.fst).Nodup

namespace PeerMap

variable {Id : Type}

/-- The ids of the known peers. -/
def ids (peers : PeerMap Id) : List Id :=
  peers.entries.map Prod.fst

/-- A path that is known replaces another one. -/
def refresh [DecidableEq Id] (id : Id) (path : PeerPath) (known : Id × PeerEntry) :
    Id × PeerEntry :=
  if known.1 = id ∧ path ≠ .unknown then (known.1, { known.2 with path := path }) else known

theorem refresh_fst [DecidableEq Id] (id : Id) (path : PeerPath) (known : Id × PeerEntry) :
    (refresh id path known).1 = known.1 := by
  rw [refresh]
  split
  · rfl
  · rfl

theorem map_refresh_fst [DecidableEq Id] (id : Id) (path : PeerPath)
    (entries : List (Id × PeerEntry)) :
    (entries.map (refresh id path)).map Prod.fst = entries.map Prod.fst := by
  rw [List.map_map]
  exact List.map_congr_left fun known _ => refresh_fst id path known

/-- Record or refresh a peer.  A known path is never replaced by `unknown`, and
the direction that was seen first stays. -/
def recordPeer [DecidableEq Id] (peers : PeerMap Id) (id : Id) (path : PeerPath)
    (direction : Direction) : PeerMap Id :=
  if known : id ∈ peers.ids then
    ⟨peers.entries.map (refresh id path), by rw [map_refresh_fst]; exact peers.distinct⟩
  else
    ⟨peers.entries ++ [(id, ⟨path, direction⟩)], by
      rw [List.map_append]
      exact List.nodup_append.mpr ⟨peers.distinct, List.nodup_singleton _,
        fun x member y last => by
          rw [List.mem_singleton.mp last]
          rintro rfl
          exact known member⟩⟩

/-- Recording a peer adds its id and no other one. -/
theorem mem_ids_recordPeer [DecidableEq Id] {peers : PeerMap Id} {id other : Id}
    {path : PeerPath} {direction : Direction} :
    other ∈ (peers.recordPeer id path direction).ids ↔ other ∈ peers.ids ∨ other = id := by
  rw [recordPeer]
  split
  · rename_i known
    rw [ids, map_refresh_fst, ← ids]
    constructor
    · exact Or.inl
    · rintro (member | rfl)
      · exact member
      · exact known
  · rw [ids, List.map_append, List.mem_append, ← ids]
    simp

variable [LinearOrder Id]

/-- The known peers ordered by id. -/
def peerSnapshot (peers : PeerMap Id) : List (Id × PeerEntry) :=
  peers.entries.insertionSort fun first second => first.1 ≤ second.1

theorem map_peerSnapshot (peers : PeerMap Id) :
    peers.peerSnapshot.map Prod.fst = peers.ids.insertionSort (· ≤ ·) :=
  List.map_insertionSort _ _ _ _ fun _ _ _ _ => Iff.rfl

theorem mem_map_peerSnapshot {peers : PeerMap Id} {id : Id} :
    id ∈ peers.peerSnapshot.map Prod.fst ↔ id ∈ peers.ids := by
  rw [map_peerSnapshot, List.mem_insertionSort]

theorem length_peerSnapshot (peers : PeerMap Id) :
    peers.peerSnapshot.length = peers.ids.length := by
  rw [peerSnapshot, List.length_insertionSort, ids, List.length_map]

/-- The ids of a snapshot ascend. -/
theorem pairwise_peerSnapshot (peers : PeerMap Id) :
    (peers.peerSnapshot.map Prod.fst).Pairwise (· < ·) := by
  have ordered : (peers.peerSnapshot.map Prod.fst).Pairwise (· ≤ ·) := by
    rw [map_peerSnapshot]
    exact List.pairwise_insertionSort _ _
  have distinct : (peers.peerSnapshot.map Prod.fst).Nodup := by
    rw [map_peerSnapshot]
    exact (List.perm_insertionSort _ _).nodup_iff.mpr peers.distinct
  exact (ordered.and distinct).imp fun both => lt_of_le_of_ne both.1 both.2

end PeerMap

/-! ## The scan -/

/-- What the extension reports of its own endpoint. -/
structure LocalEndpoint where
  endpointId : Text
  relayUrl : Text
  serving : Bool

/-- One row of `quackhole_status`, with NULL columns absent. -/
structure StatusRow where
  endpointId : Option Text
  relayUrl : Option Text
  serving : Bool
  peerId : Option Text
  peerPath : Option Text
  peerDirection : Option Text
deriving DecidableEq

/-- The size of the buffers for a path and a direction. -/
def peerWordLen : Nat := 32

section Scan

variable {Id : Type} [LinearOrder Id] (toZ32 : Id → Text)

/-- `qh_peer_count`. -/
def qhPeerCount (peers : PeerMap Id) : Nat :=
  peers.peerSnapshot.length

/-- `qh_peer_info`: the id, the path and the direction of the peer at an index,
each in its own buffer. -/
def qhPeerInfo (peers : PeerMap Id) (index : Nat) : Option (Text × Text × Text) :=
  peers.peerSnapshot[index]?.bind fun (id, entry) =>
    ((writeStrOrErr endpointIdLen (toZ32 id)).bind fun peerId =>
      (writeStrOrErr peerWordLen entry.path.text).bind fun peerPath =>
        (writeStrOrErr peerWordLen entry.direction.text).map fun peerDirection =>
          (peerId, peerPath, peerDirection)).toOption

/-- The row at an index, of a scan that counted so many peers. -/
def statusRow (localEndpoint : LocalEndpoint) (peers : PeerMap Id) (peerCount row : Nat) :
    StatusRow :=
  let info := if 0 < peerCount then qhPeerInfo toZ32 peers row else none
  { endpointId := some localEndpoint.endpointId
    relayUrl := if localEndpoint.relayUrl.isEmpty then none else some localEndpoint.relayUrl
    serving := localEndpoint.serving
    peerId := info.map (·.1)
    peerPath := info.map (·.2.1)
    peerDirection := info.map (·.2.2) }

/-- The only row when no endpoint is bound. -/
def unboundRow : StatusRow :=
  ⟨none, none, false, none, none, none⟩

/-- How many rows are made of so many peers: one when there are none, and at most
as many as an output vector has room for. -/
def rowCount (vectorSize peerCount : Nat) : Nat :=
  if peerCount = 0 then 1 else min peerCount vectorSize

/-- A scan that has counted the peers and made some of its rows. -/
structure StatusScan where
  peerCount : Nat
  rows : List StatusRow
deriving DecidableEq

/-- The known peers, and the scan once it has begun. -/
structure StatusState (Id : Type) where
  peers : PeerMap Id
  scan : Option StatusScan := none

inductive StatusEvent (Id : Type) where
  /-- A peer is recorded by the accept loop or the dial side. -/
  | record (id : Id) (path : PeerPath) (direction : Direction)
  /-- The scan begins and counts the peers. -/
  | count
  /-- The scan makes its next row. -/
  | row

/-- One step of the scan, or of the sides that record peers.  The scan is over when
it has made its rows. -/
def nextStatus (vectorSize : Nat) (endpoint : Option LocalEndpoint) :
    LStep (StatusEvent Id) (StatusState Id)
  | .record id path direction, state =>
      some { state with peers := state.peers.recordPeer id path direction }
  | .count, state =>
      if state.scan.isSome then none
      else
        match endpoint with
        | some _ => some { state with scan := some ⟨qhPeerCount state.peers, []⟩ }
        | none => some { state with scan := some ⟨0, [unboundRow]⟩ }
  | .row, state =>
      state.scan.bind fun scan => endpoint.bind fun localEndpoint =>
        if scan.rows.length < rowCount vectorSize scan.peerCount then
          some { state with scan := some { scan with rows := scan.rows ++
            [statusRow toZ32 localEndpoint state.peers scan.peerCount scan.rows.length] } }
        else none

end Scan

/-! ## Reading the rows -/

/-- Ids that print apart from each other and fit their buffer. -/
structure Printable {Id : Type} (toZ32 : Id → Text) : Prop where
  injective : Function.Injective toZ32
  fits : ∀ id, (utf8 (toZ32 id)).length + 1 ≤ endpointIdLen
  nul_notMem : ∀ id, '\x00' ∉ toZ32 id

theorem writeStrOrErr_path (path : PeerPath) :
    writeStrOrErr peerWordLen path.text = .ok path.text := by
  cases path with
  | direct => decide
  | relay => decide
  | unknown => decide

theorem writeStrOrErr_direction (direction : Direction) :
    writeStrOrErr peerWordLen direction.text = .ok direction.text := by
  cases direction with
  | inbound => decide
  | outbound => decide

section Rows

variable {Id : Type} [LinearOrder Id] {toZ32 : Id → Text}

/-- The peer at an index is printed whole. -/
theorem Printable.qhPeerInfo_fst (printable : Printable toZ32) (peers : PeerMap Id)
    (index : Nat) :
    (qhPeerInfo toZ32 peers index).map (·.1) =
      ((peers.peerSnapshot.map Prod.fst)[index]?).map toZ32 := by
  rw [qhPeerInfo, List.getElem?_map]
  cases peers.peerSnapshot[index]? with
  | none => rfl
  | some known =>
      have written : writeStrOrErr endpointIdLen (toZ32 known.1) = .ok (toZ32 known.1) :=
        writeStrOrErr_eq_ok_iff.mpr ⟨printable.fits known.1,
          (untilNul_eq_self (printable.nul_notMem known.1)).symm⟩
      simp only [Option.bind_some, written, writeStrOrErr_path, writeStrOrErr_direction]
      rfl

theorem Printable.peerId_statusRow (printable : Printable toZ32) (localEndpoint : LocalEndpoint)
    (peers : PeerMap Id) {peerCount : Nat} (positive : 0 < peerCount) (row : Nat) :
    (statusRow toZ32 localEndpoint peers peerCount row).peerId =
      ((peers.peerSnapshot.map Prod.fst)[row]?).map toZ32 := by
  rw [statusRow]
  dsimp only
  rw [if_pos positive, printable.qhPeerInfo_fst]

variable {vectorSize : Nat} {endpoint : Option LocalEndpoint} {known : List Id}
  {state final : StatusState Id} {scan : StatusScan}

theorem nextStatus_row_eq_some
    (step : nextStatus toZ32 vectorSize endpoint .row state = some final) :
    ∃ scan localEndpoint, state.scan = some scan ∧
      scan.rows.length < rowCount vectorSize scan.peerCount ∧
      final.peers = state.peers ∧ final.scan = some { scan with rows := scan.rows ++
        [statusRow toZ32 localEndpoint state.peers scan.peerCount scan.rows.length] } := by
  rcases Option.bind_eq_some_iff.mp step with ⟨scan, under, rest⟩
  rcases Option.bind_eq_some_iff.mp rest with ⟨localEndpoint, -, made⟩
  split at made
  · rename_i more
    cases made
    exact ⟨scan, localEndpoint, under, more, rfl, rfl⟩
  · cases made

/-- What is known of a scan under way when so many peers were counted: each row
shows the peer at its place in the snapshot it was read from, and every snapshot
had all of the counted peers. -/
structure Scanned (toZ32 : Id → Text) (known : List Id) (state : StatusState Id)
    (scan : StatusScan) : Prop where
  current : state.scan = some scan
  counted : scan.peerCount = known.length
  inside : known ⊆ state.peers.ids
  empty : known = [] → ∀ row ∈ scan.rows, row.peerId = none
  rows : known ≠ [] → ∃ ids : List Id,
    scan.rows.map (·.peerId) = ids.map (fun id => some (toZ32 id)) ∧
    ∀ (k : Nat) (id : Id), ids[k]? = some id → ∃ snapshot : List Id, snapshot.Pairwise (· < ·) ∧
      known ⊆ snapshot ∧ snapshot[k]? = some id ∧ snapshot ⊆ state.peers.ids

namespace Scanned

/-- Recording a peer changes no row. -/
theorem record (under : Scanned toZ32 known state scan) (id : Id) (path : PeerPath)
    (direction : Direction) :
    Scanned toZ32 known { state with peers := state.peers.recordPeer id path direction } scan := by
  have grows : state.peers.ids ⊆ (state.peers.recordPeer id path direction).ids :=
    fun other member => PeerMap.mem_ids_recordPeer.mpr (Or.inl member)
  refine ⟨under.current, under.counted, fun other member => grows (under.inside member),
    under.empty, fun nonempty => ?_⟩
  rcases under.rows nonempty with ⟨ids, shown, each⟩
  refine ⟨ids, shown, fun k id there => ?_⟩
  rcases each k id there with ⟨snapshot, ordered, all, found, inside⟩
  exact ⟨snapshot, ordered, all, found, fun other member => grows (inside member)⟩

/-- The next row shows the peer at its place in the snapshot of that moment. -/
theorem row (printable : Printable toZ32) (distinct : known.Nodup)
    (under : Scanned toZ32 known state scan) {localEndpoint : LocalEndpoint}
    (more : scan.rows.length < rowCount vectorSize scan.peerCount)
    (same : final.peers = state.peers)
    (after : final.scan = some { scan with rows := scan.rows ++
      [statusRow toZ32 localEndpoint state.peers scan.peerCount scan.rows.length] }) :
    Scanned toZ32 known final { scan with rows := scan.rows ++
      [statusRow toZ32 localEndpoint state.peers scan.peerCount scan.rows.length] } := by
  refine ⟨after, under.counted, by rw [same]; exact under.inside, ?_, ?_⟩
  · intro none row member
    rcases List.mem_append.mp member with earlier | last
    · exact under.empty none row earlier
    · rw [List.mem_singleton.mp last, statusRow, under.counted, none]
      rfl
  · intro nonempty
    rcases under.rows nonempty with ⟨ids, shown, each⟩
    have positive : 0 < scan.peerCount := by
      rw [under.counted]
      exact List.length_pos_iff.mpr nonempty
    have length : scan.rows.length = ids.length := by
      have lengths := congrArg List.length shown
      rwa [List.length_map, List.length_map] at lengths
    have room : scan.rows.length < (state.peers.peerSnapshot.map Prod.fst).length := by
      have enough : known.length ≤ state.peers.ids.length :=
        (List.subperm_of_subset distinct under.inside).length_le
      rw [rowCount, if_neg (by omega), under.counted] at more
      rw [List.length_map, PeerMap.length_peerSnapshot]
      omega
    have found := List.getElem?_eq_getElem room
    have printed : (statusRow toZ32 localEndpoint state.peers scan.peerCount
        scan.rows.length).peerId =
          some (toZ32 (state.peers.peerSnapshot.map Prod.fst)[scan.rows.length]) := by
      rw [printable.peerId_statusRow _ _ positive, found]
      rfl
    refine ⟨ids ++ [(state.peers.peerSnapshot.map Prod.fst)[scan.rows.length]], ?_, ?_⟩
    · rw [List.map_append, List.map_append, shown, List.map_singleton, List.map_singleton, printed]
    · intro k id there
      rw [same]
      rcases Nat.lt_or_ge k ids.length with earlier | late
      · rw [List.getElem?_append_left earlier] at there
        exact each k id there
      · rw [List.getElem?_append_right late, List.getElem?_singleton] at there
        split at there
        · rename_i last
          cases there
          have place : k = scan.rows.length := by omega
          refine ⟨_, state.peers.pairwise_peerSnapshot, ?_, place ▸ found, ?_⟩
          · exact fun other member => PeerMap.mem_map_peerSnapshot.mpr (under.inside member)
          · exact fun other member => PeerMap.mem_map_peerSnapshot.mp member
        · cases there

/-- What stays true through a run of the scan, and which peers are known at its
end. -/
theorem exec (printable : Printable toZ32) (distinct : known.Nodup)
    (under : Scanned toZ32 known state scan) {events : List (StatusEvent Id)}
    (executed : Transition.exec (nextStatus toZ32 vectorSize endpoint) events state = some final) :
    (∃ scan, Scanned toZ32 known final scan) ∧ ∀ id, id ∈ final.peers.ids ↔
      id ∈ state.peers.ids ∨ ∃ path direction, StatusEvent.record id path direction ∈ events := by
  induction events generalizing state scan with
  | nil =>
      cases executed
      exact ⟨⟨scan, under⟩, by simp⟩
  | cons event events ih =>
      rcases Option.bind_eq_some_iff.mp executed with ⟨middle, step, rest⟩
      cases event with
      | record id path direction =>
          cases step
          rcases ih (under.record id path direction) rest with ⟨ends, growth⟩
          refine ⟨ends, fun other => ?_⟩
          rw [growth, PeerMap.mem_ids_recordPeer]
          constructor
          · rintro ((member | rfl) | ⟨path, direction, member⟩)
            · exact Or.inl member
            · exact Or.inr ⟨path, direction, List.mem_cons_self⟩
            · exact Or.inr ⟨path, direction, List.mem_cons_of_mem _ member⟩
          · rintro (member | ⟨path, direction, member⟩)
            · exact Or.inl (Or.inl member)
            · rcases List.mem_cons.mp member with first | later
              · cases first
                exact Or.inl (Or.inr rfl)
              · exact Or.inr ⟨path, direction, later⟩
      | count =>
          have begun : state.scan.isSome := by rw [under.current]; rfl
          have stuck : nextStatus toZ32 vectorSize endpoint .count state = none := if_pos begun
          rw [stuck] at step
          cases step
      | row =>
          rcases nextStatus_row_eq_some step with ⟨current, localEndpoint, found, more, same, after⟩
          rw [under.current] at found
          obtain rfl := Option.some.inj found
          rcases ih (under.row printable distinct more same after) rest with ⟨ends, growth⟩
          refine ⟨ends, fun other => ?_⟩
          rw [growth, same]
          simp

end Scanned

theorem scanned_of_count {peers : PeerMap Id} {localEndpoint : LocalEndpoint}
    (step : nextStatus toZ32 vectorSize (some localEndpoint) .count ⟨peers, none⟩ = some state) :
    Scanned toZ32 (peers.peerSnapshot.map Prod.fst) state ⟨qhPeerCount peers, []⟩ ∧
      state.peers = peers := by
  cases step
  refine ⟨⟨rfl, ?_, fun id member => PeerMap.mem_map_peerSnapshot.mp member, fun _ => nofun,
    fun _ => ⟨[], rfl, nofun⟩⟩, rfl⟩
  rw [qhPeerCount, List.length_map]

end Rows

/-! ## Once and only once -/

/-- Every known peer is in exactly one row, and no peer is in two. -/
def ListsOnce {Id : Type} (toZ32 : Id → Text) (known : List Id) (rows : List StatusRow) : Prop :=
  (∀ id ∈ known, (rows.map (·.peerId)).count (some (toZ32 id)) = 1) ∧
    ∀ id, (rows.map (·.peerId)).count (some (toZ32 id)) ≤ 1

section Once

variable {Id : Type} [LinearOrder Id] {toZ32 : Id → Text}

/-- Rows that show printed ids list the known peers once exactly when the ids are
theirs and are not repeated. -/
theorem listsOnce_iff (printable : Printable toZ32) {known ids : List Id} {rows : List StatusRow}
    (shown : rows.map (·.peerId) = ids.map fun id => some (toZ32 id)) :
    ListsOnce toZ32 known rows ↔ known ⊆ ids ∧ ids.Nodup := by
  have injective : Function.Injective fun id => some (toZ32 id) :=
    fun _ _ equal => printable.injective (Option.some.inj equal)
  have counts : ∀ id, (ids.map fun id => some (toZ32 id)).count (some (toZ32 id)) =
      ids.count id := fun id => List.count_map_of_injective ids _ injective id
  rw [ListsOnce, shown]
  simp only [counts]
  constructor
  · rintro ⟨once, atMost⟩
    refine ⟨fun id member => ?_, List.nodup_iff_count_le_one.mpr atMost⟩
    apply List.count_pos_iff.mp
    rw [once id member]
    exact Nat.one_pos
  · rintro ⟨inside, distinct⟩
    exact ⟨fun id member => List.count_eq_one_of_mem distinct (inside member),
      fun id => List.nodup_iff_count_le_one.mp distinct id⟩

/-- A row that shows the peer at its own place of every snapshot is at its place
among the known peers. -/
theorem eq_of_listed {known ids : List Id} (ordered : known.Pairwise (· < ·))
    (same : ids.Perm known)
    (each : ∀ (k : Nat) (id : Id), ids[k]? = some id → ∃ snapshot : List Id,
      snapshot.Pairwise (· < ·) ∧ known ⊆ snapshot ∧ snapshot[k]? = some id) : ids = known := by
  apply eq_of_perm_of_forall₂_le same _ ordered
  rw [List.forall₂_iff_get]
  refine ⟨same.length_eq, fun k bound inside => ?_⟩
  rcases each k _ (List.getElem?_eq_getElem bound) with ⟨snapshot, ascends, all, found⟩
  rcases exists_le_of_sublist (sublist_of_subset ordered ascends all) ascends
    (List.getElem?_eq_getElem inside) with ⟨y, there, less⟩
  rw [found] at there
  obtain rfl := Option.some.inj there
  exact less

/-- The last row shows the peer at its place in the snapshot it was read from. -/
theorem Printable.getElem?_of_shown (printable : Printable toZ32) {rows : List StatusRow}
    {localEndpoint : LocalEndpoint} {peers : PeerMap Id} {peerCount : Nat}
    (positive : 0 < peerCount) {ids : List Id}
    (shown : (rows ++ [statusRow toZ32 localEndpoint peers peerCount rows.length]).map
      (·.peerId) = ids.map fun id => some (toZ32 id))
    {id : Id} (there : ids[rows.length]? = some id) :
    (peers.peerSnapshot.map Prod.fst)[rows.length]? = some id := by
  have last := congrArg (fun list => list[rows.length]?) shown
  simp only [List.getElem?_map, there, List.getElem?_append_right (Nat.le_refl _),
    Nat.sub_self, List.getElem?_cons_zero, Option.map_some, Option.some.injEq] at last
  rw [printable.peerId_statusRow _ _ positive] at last
  rcases Option.map_eq_some_iff.mp last with ⟨other, found, same⟩
  rw [found, printable.injective same]

/-- When everyone else in the snapshots is greater than all known peers, a row shows
the known peer of its place. -/
theorem getElem?_of_greater {known snapshot : List Id} (ordered : known.Pairwise (· < ·))
    (ascends : snapshot.Pairwise (· < ·)) (all : known ⊆ snapshot)
    (greater : ∀ id ∈ snapshot, id ∈ known ∨ ∀ other ∈ known, other < id) {k : Nat}
    (bound : k < known.length) : snapshot[k]? = known[k]? := by
  rcases prefix_of_forall_lt ordered ascends all greater with ⟨rest, whole⟩
  rw [← whole, List.getElem?_append_left bound]

omit [LinearOrder Id] in
/-- Rows without a peer list nobody. -/
theorem listsOnce_nil_of_blank {rows : List StatusRow} (blank : ∀ row ∈ rows, row.peerId = none) :
    ListsOnce toZ32 [] rows := by
  refine ⟨nofun, fun id => ?_⟩
  have absent : some (toZ32 id) ∉ rows.map (·.peerId) := by
    intro shown
    rcases List.mem_map.mp shown with ⟨row, inside, printed⟩
    rw [blank row inside] at printed
    cases printed
  rw [List.count_eq_zero_of_not_mem absent]
  exact Nat.zero_le _

/-- Rows that show the peer at their own place of such snapshots show the known peers. -/
theorem eq_of_greater {known ids : List Id} (ordered : known.Pairwise (· < ·))
    (length : ids.length = known.length)
    (each : ∀ (k : Nat) (id : Id), ids[k]? = some id → ∃ snapshot : List Id,
      snapshot.Pairwise (· < ·) ∧ known ⊆ snapshot ∧
        (∀ other ∈ snapshot, other ∈ known ∨ ∀ first ∈ known, first < other) ∧
          snapshot[k]? = some id) : ids = known := by
  apply List.ext_getElem?
  intro k
  rcases Nat.lt_or_ge k ids.length with bound | beyond
  · rcases each k _ (List.getElem?_eq_getElem bound) with
      ⟨snapshot, ascends, all, greater, found⟩
    rw [List.getElem?_eq_getElem bound, ← found]
    exact getElem?_of_greater ordered ascends all greater (length ▸ bound)
  · rw [List.getElem?_eq_none beyond, List.getElem?_eq_none (length ▸ beyond)]

/-- A peer that is known when the last row shows the greatest of the counted peers
is one of them, or greater than all. -/
theorem mem_or_forall_lt {known snapshot : List Id} (ordered : known.Pairwise (· < ·))
    (ascends : snapshot.Pairwise (· < ·)) (all : known ⊆ snapshot) {k : Nat}
    (length : known.length = k + 1) {last : Id} (found : snapshot[k]? = some last)
    (same : known[k]? = some last) {id : Id} (member : id ∈ snapshot) :
    id ∈ known ∨ ∀ other ∈ known, other < id := by
  have atMost : ∀ other ∈ known, other ≤ last := by
    intro other inside
    rcases List.getElem_of_mem inside with ⟨i, bound, rfl⟩
    rcases List.getElem?_eq_some_iff.mp same with ⟨final, rfl⟩
    rcases Nat.lt_or_ge i k with earlier | late
    · exact le_of_lt (List.pairwise_iff_getElem.mp ordered i k bound final earlier)
    · have place : i = k := by omega
      subst place
      exact le_refl _
  have front : known ⊆ snapshot.take (k + 1) := fun other inside =>
    mem_take_of_le ascends found (all inside) (atMost other inside)
  have size : (snapshot.take (k + 1)).length = known.length := by
    have bound := (List.getElem?_eq_some_iff.mp found).1
    rw [List.length_take]
    omega
  have perm : known.Perm (snapshot.take (k + 1)) :=
    (List.subperm_of_subset ordered.nodup front).perm_of_length_le (le_of_eq size)
  rcases lt_or_ge last id with greater | less
  · exact Or.inr fun other inside => lt_of_le_of_lt (atMost other inside) greater
  · exact Or.inl (perm.mem_iff.mpr (mem_take_of_le ascends found member less))

variable {vectorSize : Nat} {endpoint : Option LocalEndpoint} {peers : PeerMap Id}
  {events : List (StatusEvent Id)} {final : StatusState Id} {scan : StatusScan}

/-- A scan that was bound to an endpoint and made its last row just now. -/
theorem exists_scanned_of_exec (printable : Printable toZ32)
    (executed : exec (nextStatus toZ32 vectorSize endpoint) (.count :: (events ++ [.row]))
      ⟨peers, none⟩ = some final)
    (read : final.scan = some scan) :
    Scanned toZ32 (peers.peerSnapshot.map Prod.fst) final scan ∧
      (∀ id, id ∈ final.peers.ids ↔ id ∈ peers.ids ∨
        ∃ path direction, StatusEvent.record id path direction ∈ events) ∧
      ∃ localEndpoint rows, scan.rows = rows ++
        [statusRow toZ32 localEndpoint final.peers scan.peerCount rows.length] := by
  rcases Option.bind_eq_some_iff.mp executed with ⟨start, counted, rest⟩
  rw [exec_append] at rest
  rcases Option.bind_eq_some_iff.mp rest with ⟨middle, during, last⟩
  rcases Option.bind_eq_some_iff.mp last with ⟨ended, step, done⟩
  cases done
  rcases endpoint with _ | localEndpoint
  · rcases Option.bind_eq_some_iff.mp step with ⟨_, -, unbound⟩
    cases unbound
  · rcases scanned_of_count counted with ⟨under, same⟩
    have distinct := peers.pairwise_peerSnapshot.nodup
    rcases under.exec printable distinct during with ⟨⟨before, underway⟩, growth⟩
    rcases nextStatus_row_eq_some step with ⟨current, place, found, more, unchanged, after⟩
    rw [underway.current] at found
    obtain rfl := Option.some.inj found
    rw [after] at read
    obtain rfl := Option.some.inj read
    refine ⟨underway.row printable distinct more unchanged after, fun id => ?_, place,
      before.rows, ?_⟩
    · rw [unchanged, growth, same]
    · rw [unchanged]

/-- A scan from its count to its last row lists every known peer once exactly when
they fit into one output vector and whoever else was recorded meanwhile comes after
all of them. -/
theorem listsOnce_iff_of_exec (printable : Printable toZ32)
    (executed : exec (nextStatus toZ32 vectorSize endpoint) (.count :: (events ++ [.row]))
      ⟨peers, none⟩ = some final)
    (read : final.scan = some scan)
    (finished : scan.rows.length = rowCount vectorSize scan.peerCount) :
    ListsOnce toZ32 peers.ids scan.rows ↔ peers.ids.length ≤ vectorSize ∧
      ∀ id path direction, StatusEvent.record id path direction ∈ events →
        id ∈ peers.ids ∨ ∀ known ∈ peers.ids, known < id := by
  rcases exists_scanned_of_exec printable executed read with
    ⟨scanned, growth, localEndpoint, before, lastRow⟩
  have ordered := peers.pairwise_peerSnapshot
  have member : ∀ {id}, id ∈ peers.ids ↔ id ∈ peers.peerSnapshot.map Prod.fst :=
    PeerMap.mem_map_peerSnapshot.symm
  have size : peers.ids.length = (peers.peerSnapshot.map Prod.fst).length := by
    rw [List.length_map, PeerMap.length_peerSnapshot]
  rw [ListsOnce, size]
  simp only [member] at growth ⊢
  rw [← ListsOnce]
  generalize peers.peerSnapshot.map Prod.fst = known at *
  have listed : scan.rows.length = before.length + 1 := by
    rw [lastRow, List.length_append, List.length_singleton]
  by_cases none : known = []
  · have blank := scanned.empty none
    subst none
    constructor
    · intro _
      exact ⟨Nat.zero_le _, fun _ _ _ _ => Or.inr nofun⟩
    · intro _
      exact listsOnce_nil_of_blank blank
  · rcases scanned.rows none with ⟨ids, shown, each⟩
    have positive : 0 < scan.peerCount := by
      rw [scanned.counted]
      exact List.length_pos_iff.mpr none
    have length : ids.length = scan.rows.length := by
      have lengths := congrArg List.length shown
      rw [List.length_map, List.length_map] at lengths
      exact lengths.symm
    rw [rowCount, if_neg (by omega), scanned.counted] at finished
    rw [listsOnce_iff printable shown]
    constructor
    · rintro ⟨inside, distinct⟩
      have subperm := List.subperm_of_subset ordered.nodup inside
      have fits : known.length ≤ ids.length := subperm.length_le
      have same : ids = known := by
        apply eq_of_listed ordered (subperm.perm_of_length_le (by omega)).symm
        intro k id there
        rcases each k id there with ⟨snapshot, ascends, all, found, -⟩
        exact ⟨snapshot, ascends, all, found⟩
      refine ⟨by omega, fun id path direction recorded => ?_⟩
      have bound : before.length < known.length := by omega
      obtain ⟨greatest, atEnd⟩ : ∃ greatest, known[before.length]? = some greatest :=
        ⟨known[before.length], List.getElem?_eq_getElem bound⟩
      have there : ids[before.length]? = some greatest := by rw [same, atEnd]
      rw [lastRow] at shown
      have found := printable.getElem?_of_shown positive shown there
      have inside : known ⊆ final.peers.peerSnapshot.map Prod.fst := fun other isKnown =>
        PeerMap.mem_map_peerSnapshot.mpr (scanned.inside isKnown)
      have present : id ∈ final.peers.peerSnapshot.map Prod.fst :=
        PeerMap.mem_map_peerSnapshot.mpr ((growth id).mpr (Or.inr ⟨path, direction, recorded⟩))
      exact mem_or_forall_lt ordered final.peers.pairwise_peerSnapshot inside (by omega) found
        atEnd present
    · rintro ⟨fits, greater⟩
      have same : ids = known := by
        apply eq_of_greater ordered (by omega)
        intro k id there
        rcases each k id there with ⟨snapshot, ascends, all, found, inside⟩
        refine ⟨snapshot, ascends, all, fun other present => ?_, found⟩
        rcases (growth other).mp (inside present) with isKnown | ⟨path, direction, recorded⟩
        · exact Or.inl isKnown
        · exact greater other path direction recorded
      rw [same]
      exact ⟨fun id inside => inside, ordered.nodup⟩

end Once

/-! ## Peers by their keys -/

section Keys

variable {isKey : Bytes → Bool}

theorem map_toNat_bytes_injective :
    Function.Injective fun key : Key isKey => key.bytes.map UInt8.toNat := by
  rintro ⟨bytes, size, valid⟩ ⟨others, alsoSize, alsoValid⟩ equal
  obtain rfl := (List.map_injective_iff.mpr fun _ _ => UInt8.toNat_inj.mp) equal
  rfl

/-- Keys in the order of their bytes. -/
instance : LinearOrder (Key isKey) :=
  LinearOrder.lift' (fun key => key.bytes.map UInt8.toNat) map_toNat_bytes_injective

theorem printable_toZ32 : Printable (@Key.toZ32 isKey) where
  injective first second equal := by
    have read := first.fromZ32_toZ32 true
    rw [equal, second.fromZ32_toZ32 true] at read
    exact (Option.some.inj read).symm
  fits key := by
    rw [key.length_utf8_toZ32]
    decide
  nul_notMem key member := absurd (key.mem_letters_of_mem_toZ32 _ member) (by decide)

/-- What a scan lists, from its count to its last row, whatever is recorded
meanwhile. -/
theorem status_lists_once_iff {vectorSize : Nat} {endpoint : Option LocalEndpoint}
    {peers : PeerMap (Key isKey)} {events : List (StatusEvent (Key isKey))}
    {final : StatusState (Key isKey)} {scan : StatusScan}
    (executed : exec (nextStatus Key.toZ32 vectorSize endpoint) (.count :: (events ++ [.row]))
      ⟨peers, none⟩ = some final)
    (read : final.scan = some scan)
    (finished : scan.rows.length = rowCount vectorSize scan.peerCount) :
    ListsOnce Key.toZ32 peers.ids scan.rows ↔ peers.ids.length ≤ vectorSize ∧
      ∀ id path direction, StatusEvent.record id path direction ∈ events →
        id ∈ peers.ids ∨ ∀ known ∈ peers.ids, known < id :=
  listsOnce_iff_of_exec printable_toZ32 executed read finished

end Keys

/-- The key of 31 zeros and a last byte. -/
def smallKey (last : UInt8) : Key fun _ => true :=
  ⟨List.replicate 31 0 ++ [last], rfl, rfl⟩

/-- Two known peers. -/
def twoPeers : PeerMap (Key fun _ => true) :=
  ⟨[(smallKey 1, ⟨.relay, .outbound⟩), (smallKey 2, ⟨.direct, .inbound⟩)], by decide⟩

/-- A scan of two peers, with a third one recorded between the two rows. -/
def twoRows (third : UInt8) : Option (StatusState (Key fun _ => true)) :=
  exec (nextStatus Key.toZ32 2048 (some ⟨[], [], true⟩))
    (.count :: ([.row, .record (smallKey third) .unknown .inbound] ++ [.row])) ⟨twoPeers, none⟩

theorem exists_twoRows (third : UInt8) :
    ∃ final scan, twoRows third = some final ∧ final.scan = some scan ∧
      scan.rows.length = rowCount 2048 scan.peerCount :=
  ⟨_, _, rfl, rfl, rfl⟩

/-- The third peer comes last. -/
theorem status_lists_once_iff_two :
    ∃ final scan, twoRows 3 = some final ∧ final.scan = some scan ∧
      ListsOnce Key.toZ32 twoPeers.ids scan.rows := by
  rcases exists_twoRows 3 with ⟨final, scan, executed, read, finished⟩
  refine ⟨final, scan, executed, read, ?_⟩
  apply (status_lists_once_iff executed read finished).mpr
  constructor
  · decide
  · rintro id path direction (_ | ⟨_, _ | ⟨_, ⟨⟩⟩⟩)
    right
    rintro known (_ | ⟨_, _ | ⟨_, ⟨⟩⟩⟩)
    · decide +kernel
    · decide +kernel

/-- The third peer comes first: one of the two is in both rows, and the other is in
none. -/
theorem status_repeats_row :
    ∃ final scan, twoRows 0 = some final ∧ final.scan = some scan ∧
      scan.rows.length = rowCount 2048 scan.peerCount ∧
      ¬ ListsOnce Key.toZ32 twoPeers.ids scan.rows := by
  refine ⟨_, _, rfl, rfl, rfl, ?_⟩
  rintro ⟨once, -⟩
  have listed := once (smallKey 2) (by decide)
  revert listed
  decide +kernel

end Quackhole.Extension
