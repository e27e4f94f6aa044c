import Quackhole.Site.Routes

/-!
# Routes and remotes

A route that is removed while its remote is being dialled is never drawn again, and one whose
name is given to another before it is removed stays.  As long as neither happens, there is a
route for each remote, and when nothing is in progress no other.
-/

namespace Quackhole.Site.Routes

open Quackhole.Word Quackhole.Ticket Quackhole.Transition
open Web.Remotes (World Event Task Record pairIroh)
open Web.Remotes.World (Role)

/-! ## What the steps keep -/

namespace Page

variable (page : Page)

/-- A call is in progress, or its caller is to go on, after which routes are removed. -/
def Owes : Prop :=
  ∃ (index : Nat) (task : Task), page.world.tasks[index]? = some task ∧
    (∀ name, task.call ≠ .typed name) ∧ (isEnded task.phase = true → index ∈ page.settled)

/-- An attach is past its parser. -/
def Begun (index : Nat) : Prop :=
  ∃ task, page.world.tasks[index]? = some task ∧ task.phase ≠ .parsing

/-- Every remote has its route, and every route belongs to an attach that has passed its check. -/
structure Kept : Prop where
  shown : page.Shown
  begun : ∀ view ∈ page.views, page.Begun view.2
  foreign : ∀ view ∈ page.views, view.1 ≠ page.world.localName
  unclaimed : ∀ entry ∈ page.world.listed, ∀ record, ¬ page.world.Role Task.claim entry.1 record
  fits : ∀ task ∈ page.world.tasks, Fits task

/-- What routes there are beyond those of the remotes are yet to be removed. -/
def Justified : Prop :=
  page.Owes ∨ ∀ view ∈ page.views, ∃ record, page.world.Claims view.2 record ∧ record.name = view.1

section Steps

variable {page}
variable {Id Url : Type} {iroh : Iroh Id Url} {codec : TicketCodec} {later : World} {event : Event}
  {index : Nat} {task : Task}

theorem mem_views_draw {drawn : Option (Nat × Text)} {view : Text × Nat}
    (member : view ∈ (page.draw drawn).views) :
    view ∈ page.views ∨ drawn = some (view.2, view.1) := by
  cases drawn with
  | none => exact Or.inl member
  | some pair =>
      rcases Word.Record.mem_put member with rfl | old
      · exact Or.inr rfl
      · exact Or.inl old

theorem Kept.shown_moved (kept : page.Kept)
    (turn : Turn iroh codec event page.world later index task)
    (fresh : ∀ drawn ∈ dialing iroh codec page.world event, drawn.2 ∉ page.views.map Prod.fst) :
    (page.moved iroh codec event later).Shown := by
  have shown := kept.shown
  rw [moved]
  cases dials : dialing iroh codec page.world event with
  | none =>
      refine ⟨shown.names, shown.routes, shown.single, ?_⟩
      intro other record claims
      rcases turn.claims claims with old | new
      · exact shown.claimed old
      · cases dials.symm.trans new
  | some drawn =>
      obtain ⟨number, name⟩ := drawn
      obtain ⟨same, ⟨old, found, parsing⟩, _⟩ := turn.draws _ dials
      obtain rfl : number = index := same
      have free : name ∉ page.views.map Prod.fst := fresh _ dials
      have views : Word.Record.put name number page.views = page.views ++ [(name, number)] :=
        Word.Record.put_of_absent free number
      have unused : number ∉ page.wireList := by
        rw [shown.routes]
        intro member
        rcases List.mem_map.mp member with ⟨view, inside, rfl⟩
        rcases kept.begun view inside with ⟨task', found', past⟩
        cases found.symm.trans found'
        exact past parsing
      constructor
      · exact Word.Record.nodup_put shown.names name number
      · calc
          page.wireList ++ [number] = page.views.map Prod.snd ++ [number] := by rw [shown.routes]
          _ = (Word.Record.put name number page.views).map Prod.snd := by
            rw [views, List.map_append]
            rfl
      · apply shown.single.append (List.nodup_singleton _)
        intro other old new
        rw [List.mem_singleton.mp new] at old
        exact unused old
      · intro other record claims
        change (record.name, other) ∈ Word.Record.put name number page.views
        rw [views]
        rcases turn.claims claims with old | new
        · exact List.mem_append_left _ (shown.claimed old)
        · cases dials.symm.trans new
          exact List.mem_append_right _ List.mem_cons_self

/-- An attach that is listed has no other record. -/
theorem Kept.unclaimed_moved (kept : page.Kept)
    (turn : Turn iroh codec event page.world later index task) :
    ∀ entry ∈ later.listed, ∀ record, ¬ later.Role Task.claim entry.1 record := by
  intro entry member record has
  by_cases here : entry.1 = index
  · rw [here] at has
    have claim := turn.changes.role_self.mp has
    rcases turn.listed entry member with old | ⟨_, nothing, _⟩
    · rcases turn.claim record claim with before | dials
      · exact kept.unclaimed entry old record (here ▸ before)
      · obtain ⟨_, ⟨task', found, parsing⟩, _⟩ := turn.draws _ dials
        rcases kept.begun _ (kept.shown.claimed (Or.inl old)) with ⟨task'', found', past⟩
        rw [here] at found'
        cases found.symm.trans found'
        exact past parsing
    · cases nothing.symm.trans claim
  · rcases turn.listed entry member with old | ⟨same, _⟩
    · exact kept.unclaimed entry old record ((turn.changes.role_of_ne here).mp has)
    · exact here same

/-- A typed statement changes no route and no remote; and whoever made another call is to go on
after it. -/
theorem Kept.justified_moved (kept : page.Kept) (justified : page.Justified)
    (turn : Turn iroh codec event page.world later index task) :
    (page.moved iroh codec event later).Justified := by
  by_cases typed : ∃ name, task.call = .typed name
  · rcases typed with ⟨name, typed⟩
    have fits := turn.fits_of_mem kept.fits
    have silent : task.claim = none :=
      claim_of_typed (fits task (List.mem_of_getElem? turn.found)) typed
    have before : ∀ old, page.world.tasks[index]? = some old → old.call = .typed name :=
      fun old found => (turn.changes.call old found).symm.trans typed
    rcases justified with ⟨other, task', found, untyped, owes⟩ | all
    · left
      have different : other ≠ index := by
        rintro rfl
        exact untyped name (before task' found)
      have found' := ((turn.changes.tasks other).trans (if_neg different)).trans found
      exact ⟨other, task', found', untyped, fun ended => List.mem_append_left _ (owes ended)⟩
    · right
      intro view member
      rcases mem_views_draw member with old | dials
      · rcases all view old with ⟨record, claims, same⟩
        refine ⟨record, ?_, same⟩
        rcases claims with listed | has
        · exact Or.inl ((turn.typed name typed).symm ▸ listed)
        · apply Or.inr
          apply (turn.changes.role_of_ne _).mpr has
          rintro here
          rcases has with ⟨old, found, claim⟩
          rw [here] at found
          cases (claim_of_typed (kept.fits old (List.mem_of_getElem? found))
            (before old found)).symm.trans claim
      · obtain ⟨_, _, ⟨record, claim⟩, _⟩ := turn.draws _ dials
        cases silent.symm.trans claim
  · left
    exact ⟨index, task, turn.found, fun name same => typed ⟨name, same⟩,
      fun ended => List.mem_append_right _ (turn.finishes ended)⟩

theorem Kept.moved (kept : page.Kept)
    (turn : Turn iroh codec event page.world later index task)
    (fresh : ∀ drawn ∈ dialing iroh codec page.world event, drawn.2 ∉ page.views.map Prod.fst) :
    (page.moved iroh codec event later).Kept where
  shown := kept.shown_moved turn fresh
  begun view member := by
    rcases mem_views_draw member with old | dials
    · exact turn.begun_of_begun (kept.begun view old)
    · obtain ⟨same, ⟨old, found, _⟩, _⟩ := turn.draws _ dials
      rw [show view.2 = index from same]
      exact ⟨task, turn.found, turn.begun old found⟩
  foreign view member := by
    change view.1 ≠ later.localName
    rw [turn.localName]
    rcases mem_views_draw member with old | dials
    · exact kept.foreign view old
    · obtain ⟨_, _, _, free⟩ := turn.draws _ dials
      intro same
      apply free
      exact List.mem_cons.mpr (Or.inl same)
  unclaimed := kept.unclaimed_moved turn
  fits := turn.fits_of_mem kept.fits

/-! ## Routes are removed -/

theorem connected_iff {name : Text} : page.connected name = true ↔
    name = page.world.localName ∨ ∃ entry ∈ page.world.listed, entry.2.name = name := by
  rw [connected, List.contains_iff_mem, Web.Remotes.Session.names, List.mem_cons]
  apply or_congr_right
  change name ∈ (page.world.listed.map Prod.snd).map Record.name ↔ _
  rw [List.map_map, List.mem_map]
  rfl

/-- A route whose name has a connection is that of the remote. -/
theorem Kept.listed_of_connected (kept : page.Kept) {view : Text × Nat} (member : view ∈ page.views)
    (connected : page.connected view.1 = true) :
    ∃ record, (view.2, record) ∈ page.world.listed ∧ record.name = view.1 := by
  rcases connected_iff.mp connected with same | ⟨entry, listed, same⟩
  · exact absurd same (kept.foreign view member)
  · have drawn := kept.shown.claimed (Or.inl (show (entry.1, entry.2) ∈ _ from listed))
    have equal := List.inj_on_of_nodup_map kept.shown.names drawn member same
    refine ⟨entry.2, ?_, same⟩
    rw [← equal]
    exact listed

theorem Shown.gone_iff (shown : page.Shown) {view : Text × Nat} (member : view ∈ page.views) :
    view.2 ∈ page.gone ↔ page.connected view.1 = false := by
  have indices : (page.views.map Prod.snd).Nodup := shown.routes ▸ shown.single
  rw [gone, List.mem_map]
  constructor
  · rintro ⟨other, inside, same⟩
    rcases List.mem_filter.mp inside with ⟨old, unknown⟩
    obtain rfl := List.inj_on_of_nodup_map indices old member same
    rw [Bool.not_eq_true'] at unknown
    exact unknown
  · intro unknown
    exact ⟨view, List.mem_filter.mpr ⟨member, by rw [unknown]; rfl⟩, rfl⟩

theorem Kept.syncWires (kept : page.Kept) (still : ¬ page.Dials) : page.syncWires.Kept := by
  have shown := kept.shown
  have left : ∀ view ∈ page.syncWires.views, view ∈ page.views :=
    fun view member => (List.mem_filter.mp member).1
  refine ⟨⟨?_, ?_, ?_, ?_⟩, ?_, ?_, kept.unclaimed, kept.fits⟩
  · exact shown.names.sublist (List.filter_sublist.map _)
  · change (page.wireList.filter fun index => !page.gone.contains index) =
      (page.views.filter fun view => page.connected view.1).map Prod.snd
    rw [shown.routes, List.filter_map]
    congr 1
    apply List.filter_congr
    intro view member
    have removed := shown.gone_iff member
    rw [← List.contains_iff_mem] at removed
    rw [Function.comp_apply, Bool.not_eq_eq_eq_not]
    cases known : page.connected view.1 with
    | false => exact removed.mpr known
    | true =>
        apply Bool.eq_false_iff.mpr
        intro inside
        cases known.symm.trans (removed.mp inside)
  · exact shown.single.filter _
  · rintro other record (listed | ⟨task, found, claim⟩)
    · apply List.mem_filter.mpr
      exact ⟨shown.claimed (Or.inl listed), connected_iff.mpr (Or.inr ⟨_, listed, rfl⟩)⟩
    · apply absurd _ still
      refine ⟨task, List.mem_of_getElem? found, ?_⟩
      rw [claim]
      exact Option.some_ne_none _
  · exact fun view member => kept.begun view (left view member)
  · exact fun view member => kept.foreign view (left view member)

theorem Kept.justified_syncWires (kept : page.Kept) : page.syncWires.Justified := by
  right
  intro view member
  rcases List.mem_filter.mp member with ⟨old, connected⟩
  rcases kept.listed_of_connected old connected with ⟨record, listed, same⟩
  exact ⟨record, Or.inl listed, same⟩

theorem refreshSchema_eq_moved (iroh : Iroh Id Url) (codec : TicketCodec) (page : Page) :
    page.refreshSchema =
      page.moved iroh codec (.call .reconcile) (page.world.spawn .reconcile) := by
  have none : justEnded (page.world.spawn .reconcile) (.call .reconcile) = [] := rfl
  rw [Page.moved, none, List.append_nil]
  rfl

/-! ## The law -/

/-- Which calls are settled does not matter to the routes. -/
theorem Kept.settle (kept : page.Kept) (settled : List Nat) :
    ({ page with settled := settled } : Page).Kept where
  shown := ⟨kept.shown.names, kept.shown.routes, kept.shown.single, kept.shown.claimed⟩
  begun := kept.begun
  foreign := kept.foreign
  unclaimed := kept.unclaimed
  fits := kept.fits

theorem syncs_iff (found : page.world.tasks[index]? = some task) :
    page.syncs index = true ↔ sequel task = .syncWires := by
  rw [syncs, found, Option.map_some, decide_eq_true_iff, Option.some_inj]

/-- A step is one of the session's calls, or what follows a call that is over. -/
theorem next_cases (fits : ∀ task ∈ page.world.tasks, Fits task) {happening : Happening}
    {later : Page} (step : Page.next iroh codec happening page = some later) :
    (∃ event world index task, happening = .session event ∧
      Turn iroh codec event page.world world index task ∧
        later = page.moved iroh codec event world) ∨
      ∃ index task, happening = .goOn index ∧ page.world.tasks[index]? = some task ∧
        later = { page with settled := page.settled.erase index }.perform (sequel task) := by
  cases happening with
  | session event =>
      rcases Option.map_eq_some_iff.mp step with ⟨world, moved, rfl⟩
      rcases exists_turn fits moved with ⟨index, task, turn⟩
      exact Or.inl ⟨event, world, index, task, rfl, turn, rfl⟩
  | goOn index =>
      rw [Page.next] at step
      split at step
      · rcases Option.map_eq_some_iff.mp step with ⟨task, found, rfl⟩
        exact Or.inr ⟨index, task, rfl, found, rfl⟩
      · cases step

theorem Kept.next (kept : page.Kept) {happening : Happening} {later : Page}
    (patient : page.Patient iroh codec happening)
    (step : Page.next iroh codec happening page = some later) : later.Kept := by
  rcases next_cases kept.fits step with
    ⟨event, world, index, task, rfl, turn, rfl⟩ | ⟨index, task, rfl, found, rfl⟩
  · exact kept.moved turn patient
  · have settled := kept.settle (page.settled.erase index)
    cases goes : sequel task with
    | syncWires => exact settled.syncWires (patient ((syncs_iff found).mpr goes))
    | refreshSchema =>
        rw [perform, refreshSchema_eq_moved iroh codec]
        apply settled.moved (turn_spawn .reconcile)
        intro drawn member
        cases member
    | nothing => exact settled

theorem typed_of_nothing (goes : sequel task = .nothing) : ∃ name, task.call = .typed name := by
  rw [sequel] at goes
  split at goes
  · cases goes
  · cases goes
  · cases goes
  · cases goes
  · cases goes
  · rename_i typed _
    exact ⟨_, typed⟩

theorem Kept.justified_next (kept : page.Kept) (justified : page.Justified)
    {happening : Happening} {later : Page}
    (step : Page.next iroh codec happening page = some later) : later.Justified := by
  rcases next_cases kept.fits step with
    ⟨event, world, index, task, rfl, turn, rfl⟩ | ⟨index, task, rfl, found, rfl⟩
  · exact kept.justified_moved justified turn
  · cases goes : sequel task with
    | syncWires => exact (kept.settle _).justified_syncWires
    | refreshSchema =>
        left
        refine ⟨page.world.tasks.length, ⟨.reconcile, .selecting, none⟩, ?_, ?_, ?_⟩
        · exact List.getElem?_concat_length
        · intro name same
          cases same
        · intro ended
          cases ended
    | nothing =>
        rcases justified with ⟨other, task', found', untyped, owes⟩ | all
        · left
          have different : other ≠ index := by
            rintro rfl
            cases found.symm.trans found'
            rcases typed_of_nothing goes with ⟨name, typed⟩
            exact untyped name typed
          exact ⟨other, task', found', untyped,
            fun ended => (List.mem_erase_of_ne different).mpr (owes ended)⟩
        · exact Or.inr all

theorem Opened.kept (opened : page.Opened) : page.Kept := by
  have noTask : ∀ task, task ∉ page.world.tasks := by
    rw [opened.idle.tasks]
    exact fun _ => List.not_mem_nil
  have noView : ∀ view, view ∉ page.views := by
    rw [opened.views]
    exact fun _ => List.not_mem_nil
  have noRemote : ∀ entry, entry ∉ page.world.listed := by
    rw [opened.idle.listed]
    exact fun _ => List.not_mem_nil
  refine ⟨⟨?_, ?_, ?_, ?_⟩, ?_, ?_, ?_, ?_⟩
  · rw [opened.views]
    exact List.nodup_nil
  · rw [opened.views, opened.wireList]
    rfl
  · rw [opened.wireList]
    exact List.nodup_nil
  · rintro index record (listed | ⟨task, found, _⟩)
    · exact absurd listed (noRemote _)
    · exact absurd (List.mem_of_getElem? found) (noTask task)
  · exact fun view member => absurd member (noView view)
  · exact fun view member => absurd member (noView view)
  · exact fun entry listed => absurd listed (noRemote entry)
  · exact fun task member => absurd member (noTask task)

theorem Kept.of_run {start : Page} (opened : start.Opened)
    (run : Run (Page.next iroh codec) (fun happening page => page.Patient iroh codec happening)
      start page) : page.Kept := by
  apply run.invariant Page.Kept opened.kept
  intro happening before after patient kept step
  exact kept.next patient step

/-- In every run whose steps are patient, what is in the document is a route for each remote; and
when nothing is in progress, for no other. -/
theorem shown_of_patient {start : Page} (opened : start.Opened)
    (run : Run (Page.next iroh codec) (fun happening page => page.Patient iroh codec happening)
      start page) :
    page.Shown ∧ (page.AtRest → ∀ name index, (name, index) ∈ page.views ↔
      ∃ record, (index, record) ∈ page.world.listed ∧ record.name = name) := by
  have both : page.Kept ∧ page.Justified := by
    apply run.invariant (fun page => page.Kept ∧ page.Justified)
    · refine ⟨opened.kept, Or.inr ?_⟩
      rw [opened.views]
      exact fun _ member => absurd member List.not_mem_nil
    · intro happening before after patient kept step
      exact ⟨kept.1.next patient step, kept.1.justified_next kept.2 step⟩
  refine ⟨both.1.shown, fun rest name index => ⟨fun member => ?_, ?_⟩⟩
  · rcases both.2 with ⟨other, task, found, _, owes⟩ | all
    · have settled := owes (rest.calls task (List.mem_of_getElem? found))
      rw [rest.settled] at settled
      cases settled
    · rcases all _ member with ⟨record, listed | ⟨task, found, claim⟩, same⟩
      · exact ⟨record, listed, same⟩
      · cases (claim_of_ended (rest.calls task (List.mem_of_getElem? found))).symm.trans claim
  · rintro ⟨record, listed, rfl⟩
    exact both.1.shown.claimed (Or.inl listed)

end Steps

/-- A page of which nothing was asked. -/
def blankPage : Page where
  world := World.blankWorld

theorem opened_blankPage : blankPage.Opened :=
  ⟨⟨rfl, rfl, rfl⟩, rfl, rfl⟩

/-- Run as long as the steps are patient. -/
def runPatiently (happenings : List Happening) : Option Page :=
  execWhile (Page.next pairIroh .json)
    (fun happening page => decide (page.Patient pairIroh .json happening)) happenings blankPage

theorem run_of_runPatiently {happenings : List Happening} {page : Page}
    (ran : runPatiently happenings = some page) :
    Run (Page.next pairIroh .json) (fun happening page => page.Patient pairIroh .json happening)
      blankPage page :=
  run_of_execWhile (fun _ _ tested => of_decide_eq_true tested) ran

/-- An attach from its call to the refresh that follows it. -/
def attachAlone (index : Nat) (second : Bool) : List Happening :=
  [.session (.call (World.pairAttach second [] "remote".toList)), .session (.parsed index none),
    .session (.execute true), .session (.resume index), .goOn index, .session (.execute true),
    .session (.resume (index + 1)), .goOn (index + 1)]

/-- Both are attached, and a typed statement detaches the first. -/
def detachedByHand : List Happening :=
  attachAlone 0 false ++ attachAlone 2 true ++
    [.session (.call (.typed "remote".toList)), .session (.execute true), .session (.resume 4),
      .goOn 4, .session (.execute true), .session (.resume 5), .goOn 5]

theorem overview_detachedByHand :
    (runPatiently detachedByHand).map (fun page => (page.views, page.settled,
      page.world.tasks.all fun task => isEnded task.phase)) =
    some ([("remote2".toList, 2)], [], true) := by
  decide +kernel

theorem shown_of_patient_sample :
    ∃ page : Page, page.Shown ∧ page.views = [("remote2".toList, 2)] ∧
      ∃ record, (2, record) ∈ page.world.listed ∧ record.name = "remote2".toList := by
  rcases Option.map_eq_some_iff.mp overview_detachedByHand with ⟨page, ran, seen⟩
  rcases Prod.mk.inj seen with ⟨views, rest⟩
  rcases Prod.mk.inj rest with ⟨settled, ended⟩
  have result := shown_of_patient opened_blankPage (run_of_runPatiently ran)
  refine ⟨page, result.1, views, ?_⟩
  apply (result.2 ⟨List.all_eq_true.mp ended, settled⟩ "remote2".toList 2).mp
  rw [views]
  exact List.mem_cons_self

/-! ## What a step that is not patient leaves behind -/

section Lasting

variable {page}
variable {Id Url : Type} {iroh : Iroh Id Url} {codec : TicketCodec} {later : World} {event : Event}
  {index : Nat} {task : Task}

theorem fits_next (fits : ∀ task ∈ page.world.tasks, Fits task) {happening : Happening}
    {later : Page} (step : Page.next iroh codec happening page = some later) :
    ∀ task ∈ later.world.tasks, Fits task := by
  rcases next_cases fits step with
    ⟨event, world, index, task, rfl, turn, rfl⟩ | ⟨index, task, rfl, found, rfl⟩
  · exact turn.fits_of_mem fits
  · cases sequel task with
    | syncWires => exact fits
    | refreshSchema =>
        have turn : Turn iroh codec (.call .reconcile) page.world _ _ _ := turn_spawn .reconcile
        exact turn.fits_of_mem fits
    | nothing => exact fits

/-- What becomes of the route of an attach that has begun: it is not drawn anew, and is removed
only with its view. -/
structure Onward (page : Page) (index : Nat) (later : Page) : Prop where
  begun : later.Begun index
  wireList : index ∈ later.wireList → index ∈ page.wireList
  views : index ∈ later.views.map Prod.snd → index ∈ page.views.map Prod.snd
  kept : index ∈ page.wireList → index ∉ page.views.map Prod.snd → index ∈ later.wireList

theorem onward_moved {number : Nat} (begun : page.Begun number)
    (turn : Turn iroh codec event page.world later index task) :
    Onward page number (page.moved iroh codec event later) := by
  have undrawn : ∀ name, dialing iroh codec page.world event ≠ some (number, name) := by
    intro name dials
    obtain ⟨same, ⟨old, found, parsing⟩, _⟩ := turn.draws _ dials
    rcases begun with ⟨task', found', past⟩
    obtain rfl : number = index := same
    cases found.symm.trans found'
    exact past parsing
  refine ⟨turn.begun_of_begun begun, ?_, ?_, ?_⟩
  · rw [Page.moved]
    cases dials : dialing iroh codec page.world event with
    | none => exact id
    | some drawn =>
        intro member
        apply (List.mem_append.mp member).resolve_right
        intro new
        rw [List.mem_singleton.mp new] at undrawn
        exact undrawn drawn.2 dials
  · intro member
    rcases List.mem_map.mp member with ⟨view, inside, rfl⟩
    rcases mem_views_draw inside with old | dials
    · exact List.mem_map_of_mem old
    · exact absurd dials (undrawn view.1)
  · intro member _
    rw [Page.moved]
    cases dialing iroh codec page.world event with
    | none => exact member
    | some drawn => exact List.mem_append_left _ member

theorem onward_syncWires (begun : page.Begun index) : Onward page index page.syncWires where
  begun := begun
  wireList member := (List.mem_filter.mp member).1
  views member := (List.filter_sublist.map Prod.snd).subset member
  kept member unseen := by
    apply List.mem_filter.mpr
    refine ⟨member, ?_⟩
    rw [Bool.not_eq_true', ← Bool.not_eq_true, List.contains_iff_mem]
    intro gone
    exact unseen ((List.filter_sublist.map Prod.snd).subset gone)

theorem onward_next (fits : ∀ task ∈ page.world.tasks, Fits task) {number : Nat}
    (begun : page.Begun number) {happening : Happening} {later : Page}
    (step : Page.next iroh codec happening page = some later) : Onward page number later := by
  rcases next_cases fits step with
    ⟨event, world, index, task, rfl, turn, rfl⟩ | ⟨index, task, rfl, found, rfl⟩
  · exact onward_moved begun turn
  · have goesOn : Onward { page with settled := page.settled.erase index } number
        ({ page with settled := page.settled.erase index }.perform (sequel task)) := by
      cases sequel task with
      | syncWires => exact onward_syncWires begun
      | refreshSchema =>
          rw [perform, refreshSchema_eq_moved iroh codec]
          exact onward_moved begun (turn_spawn .reconcile)
      | nothing => exact ⟨begun, id, id, fun member _ => member⟩
    exact ⟨goesOn.begun, goesOn.wireList, goesOn.views, goesOn.kept⟩

/-- A route that is gone stays away. -/
theorem notMem_of_reachable (fits : ∀ task ∈ page.world.tasks, Fits task) (begun : page.Begun index)
    (absent : index ∉ page.wireList) {last : Page}
    (reachable : Reachable (Page.next iroh codec) page last) : index ∉ last.wireList := by
  have both : (∀ task ∈ last.world.tasks, Fits task) ∧
      last.Begun index ∧ index ∉ last.wireList := by
    apply reachable.invariant fun page =>
      (∀ task ∈ page.world.tasks, Fits task) ∧ page.Begun index ∧ index ∉ page.wireList
    · exact ⟨fits, begun, absent⟩
    · rintro happening before after - ⟨fits, begun, absent⟩ step
      have onward := onward_next fits begun step
      exact ⟨fits_next fits step, onward.begun, mt onward.wireList absent⟩
  exact both.2.2

/-- A route without a view stays. -/
theorem mem_of_reachable (fits : ∀ task ∈ page.world.tasks, Fits task) (begun : page.Begun index)
    (drawn : index ∈ page.wireList) (unseen : index ∉ page.views.map Prod.snd) {last : Page}
    (reachable : Reachable (Page.next iroh codec) page last) :
    index ∈ last.wireList ∧ index ∉ last.views.map Prod.snd := by
  have all : (∀ task ∈ last.world.tasks, Fits task) ∧ last.Begun index ∧
      index ∈ last.wireList ∧ index ∉ last.views.map Prod.snd := by
    apply reachable.invariant fun page => (∀ task ∈ page.world.tasks, Fits task) ∧
      page.Begun index ∧ index ∈ page.wireList ∧ index ∉ page.views.map Prod.snd
    · exact ⟨fits, begun, drawn, unseen⟩
    · rintro happening before after - ⟨fits, begun, drawn, unseen⟩ step
      have onward := onward_next fits begun step
      exact ⟨fits_next fits step, onward.begun, onward.kept drawn unseen, mt onward.views unseen⟩
  exact all.2.2

/-- When routes are removed while a remote is dialled, its own is. -/
theorem Kept.lost (kept : page.Kept) {number : Nat} {record : Record}
    (dials : page.world.Role Task.claim number record) : number ∉ page.syncWires.wireList := by
  have drawn := kept.shown.claimed (Or.inr dials)
  have unknown : page.connected record.name = false := by
    apply Bool.eq_false_iff.mpr
    intro connected
    rcases kept.listed_of_connected drawn connected with ⟨record', listed, _⟩
    exact kept.unclaimed _ listed record dials
  intro member
  have left := (List.mem_filter.mp member).2
  rw [Bool.not_eq_true', ← Bool.not_eq_true, List.contains_iff_mem] at left
  exact left ((kept.shown.gone_iff drawn).mpr unknown)

/-- When a name is given to another route, its old one has no view. -/
theorem Kept.unseen (kept : page.Kept) {view : Text × Nat} (member : view ∈ page.views)
    {number : Nat} (different : view.2 ≠ number) :
    view.2 ∉ (Word.Record.put view.1 number page.views).map Prod.snd := by
  intro again
  rcases List.mem_map.mp again with ⟨other, inside, same⟩
  have names := kept.shown.names
  have indices : (page.views.map Prod.snd).Nodup := kept.shown.routes ▸ kept.shown.single
  have value := (Word.Record.lookup_eq_some_iff_mem
    (Word.Record.nodup_put names view.1 number)).mpr inside
  rw [Word.Record.lookup_put] at value
  split at value
  · exact different (same.symm.trans (Option.some.inj value).symm)
  · rename_i elsewhere
    have old := (Word.Record.lookup_eq_some_iff_mem names).mp value
    exact elsewhere (congrArg Prod.fst (List.inj_on_of_nodup_map indices old member same))

/-- A step that removes routes removes that of a remote that is being dialled, for good. -/
theorem Kept.gone_of_syncs (kept : page.Kept) {index : Nat} {later : Page}
    (syncs : page.syncs index = true) (step : Page.next iroh codec (.goOn index) page = some later)
    {number : Nat} {record : Record} (dials : page.world.Role Task.claim number record) :
    number ∈ page.wireList ∧
      ∀ last, Reachable (Page.next iroh codec) later last → number ∉ last.wireList := by
  have drawn := kept.shown.claimed (Or.inr dials)
  constructor
  · rw [kept.shown.routes]
    exact List.mem_map_of_mem drawn
  · intro last reachable
    have fits := fits_next kept.fits step
    rcases next_cases kept.fits step with ⟨_, _, _, _, same, _⟩ | ⟨index', task, same, found, rfl⟩
    · cases same
    · cases same
      rw [(syncs_iff found).mp syncs] at fits reachable
      have lost := (kept.settle (page.settled.erase index)).lost dials
      exact notMem_of_reachable fits (kept.begun _ drawn) lost reachable

/-- A step that draws a route under a name that has one leaves the older route in the document,
for good, without a view. -/
theorem Kept.left_of_dialing (kept : page.Kept) {event : Event} {later : Page} {number : Nat}
    {name : Text} (dials : dialing iroh codec page.world event = some (number, name))
    (step : Page.next iroh codec (.session event) page = some later) {older : Nat}
    (member : (name, older) ∈ page.views) :
    older ∈ page.wireList ∧ older ≠ number ∧
      ∀ last, Reachable (Page.next iroh codec) later last →
        older ∈ last.wireList ∧ older ∉ last.views.map Prod.snd := by
  have fits := fits_next kept.fits step
  rcases next_cases kept.fits step with
    ⟨event', world, index, task, same, turn, rfl⟩ | ⟨_, _, same, _⟩
  · cases same
    obtain ⟨rfl, ⟨old, found, parsing⟩, _⟩ := turn.draws _ dials
    have begun := kept.begun _ member
    have different : older ≠ number := by
      rintro rfl
      rcases begun with ⟨task', found', past⟩
      cases found.symm.trans found'
      exact past parsing
    have drawn : older ∈ page.wireList := by
      rw [kept.shown.routes]
      exact List.mem_map_of_mem member
    have moves : page.moved iroh codec event world =
        { page.addWire number name with
          world := world
          settled := page.settled ++ justEnded world event } := by
      rw [Page.moved, dials]
      rfl
    refine ⟨drawn, different, fun last reachable => ?_⟩
    have onward := onward_moved begun turn
    apply mem_of_reachable fits onward.begun _ _ reachable
    · rw [moves]
      exact List.mem_append_left _ drawn
    · rw [moves]
      exact kept.unseen member different
  · cases same

/-- After a patient run, a step that removes routes removes that of every remote that is being
dialled, for good; and a step that draws a route under a name that has one leaves the older route
in the document, for good, without a view. -/
theorem lasting_of_impatient {start : Page} (opened : start.Opened)
    (run : Run (Page.next iroh codec) (fun happening page => page.Patient iroh codec happening)
      start page) :
    (∀ (index : Nat) (later : Page), page.syncs index = true →
      Page.next iroh codec (.goOn index) page = some later →
        ∀ number record, page.world.Role Task.claim number record →
          number ∈ page.wireList ∧
            ∀ last, Reachable (Page.next iroh codec) later last → number ∉ last.wireList) ∧
    ∀ (event : Event) (later : Page) (number : Nat) (name : Text),
      dialing iroh codec page.world event = some (number, name) →
      Page.next iroh codec (.session event) page = some later →
        ∀ older, (name, older) ∈ page.views →
          older ∈ page.wireList ∧ older ≠ number ∧
            ∀ last, Reachable (Page.next iroh codec) later last →
              older ∈ last.wireList ∧ older ∉ last.views.map Prod.snd := by
  have kept := Kept.of_run opened run
  constructor
  · intro index later syncs step number record dials
    exact kept.gone_of_syncs syncs step dials
  · intro event later number name dials step older member
    exact kept.left_of_dialing dials step member

end Lasting

/-- Two attaches that are made together take the same name. -/
def attachedTogether : List Happening :=
  [.session (.call (World.pairAttach false [] "remote".toList)),
    .session (.call (World.pairAttach true [] "remote".toList)), .session (.parsed 0 none)]

theorem overview_attachedTogether :
    (runPatiently attachedTogether).map (fun page => (page.views,
      decide (dialing pairIroh .json page.world (.parsed 1 none) = some (1, "remote".toList)),
      (Page.next pairIroh .json (.session (.parsed 1 none)) page).isSome)) =
    some ([("remote".toList, 0)], true, true) := by
  decide +kernel

theorem lasting_of_impatient_sample :
    ∃ page later : Page, runPatiently attachedTogether = some page ∧
      Page.next pairIroh .json (.session (.parsed 1 none)) page = some later ∧
      0 ∈ page.wireList ∧ ∀ last, Reachable (Page.next pairIroh .json) later last →
        0 ∈ last.wireList ∧ 0 ∉ last.views.map Prod.snd := by
  rcases Option.map_eq_some_iff.mp overview_attachedTogether with ⟨page, ran, seen⟩
  rcases Prod.mk.inj seen with ⟨views, rest⟩
  rcases Prod.mk.inj rest with ⟨dials, enabled⟩
  rcases Option.isSome_iff_exists.mp enabled with ⟨later, step⟩
  have member : ("remote".toList, 0) ∈ page.views := by
    rw [views]
    exact List.mem_cons_self
  obtain ⟨drawn, -, stays⟩ := (lasting_of_impatient opened_blankPage (run_of_runPatiently ran)).2
    _ later 1 _ (of_decide_eq_true dials) step 0 member
  exact ⟨page, later, ran, step, drawn, stays⟩

end Page

end Quackhole.Site.Routes
