import Quackhole.Ticket.Identity
import Quackhole.Word.Ascending
import Quackhole.Word.Search

/-!
# Relay lists

A relay list stands for a set of relays: the URLs it names, in whatever order,
spelling and repetition.  The normal form of a list is the texts of those URLs in
their order with commas between them, which is a list again.
-/

namespace Quackhole.Ticket

open Quackhole.Word

/-- `iroh::RelayMode`, as far as a relay list makes one. -/
inductive RelayMode (Url : Type) where
  | custom (relays : List Url)
deriving DecidableEq

/-- What stands between commas and blanks, when that is something. -/
def entries (spec : Text) : List Text :=
  (spec.splitOnP fun c => c = ',' || isWhitespace c).filter (· ≠ [])

/-- A text that is an entry as it stands. -/
structure Entry (text : Text) : Prop where
  nonempty : text ≠ []
  comma_notMem : ',' ∉ text
  solid : Solid text

namespace Iroh

variable {Id Url : Type} (iroh : Iroh Id Url)

/-- The relay mode an endpoint binds with. -/
def relayMode (spec : Text) : Except String (Option (RelayMode Url)) :=
  (iroh.parseRelays spec).map fun urls => if urls.isEmpty then none else some (.custom urls)

/-- A URL that a relay list names. -/
def Names (spec : Text) (url : Url) : Prop :=
  ∃ entry ∈ entries spec, iroh.parseUrl entry = some url

/-- A URL a relay can be reached at. -/
def Web (url : Url) : Prop :=
  iroh.scheme url = "http".toList ∨ iroh.scheme url = "https".toList

/-- An entry that is no URL, or a URL of another scheme. -/
def Refused (entry : Text) : Prop :=
  ∀ url, iroh.parseUrl entry = some url → ¬ iroh.Web url

/-- What the URL parser promises of a URL it made of an entry: its text is an
entry too, and is read back as that URL. -/
structure LawfulUrls : Prop where
  entry_urlText : ∀ {text url}, Entry text → iroh.parseUrl text = some url →
    Entry (iroh.urlText url)
  parseUrl_urlText : ∀ {text url}, Entry text → iroh.parseUrl text = some url →
    iroh.parseUrl (iroh.urlText url) = some url

end Iroh

/-! ## Cutting a list into its entries -/

theorem entry_iff {text : Text} :
    Entry text ↔ text ≠ [] ∧ ∀ c ∈ text, (decide (c = ',') || isWhitespace c) = false := by
  constructor
  · intro entry
    refine ⟨entry.nonempty, fun c member => ?_⟩
    have comma : c ≠ ',' := fun equal => entry.comma_notMem (equal ▸ member)
    have filled := entry.solid c member
    simp [comma, filled]
  · rintro ⟨nonempty, none⟩
    refine ⟨nonempty, fun member => ?_, fun c member blank => ?_⟩
    · cases none ',' member
    · have neither := none c member
      simp [blank] at neither

theorem eq_false_of_mem_splitOnP {α : Type} {p : α → Bool} {list : List α} :
    ∀ piece ∈ list.splitOnP p, ∀ x ∈ piece, p x = false := by
  induction list with
  | nil => simp
  | cons first list ih =>
      rw [List.splitOnP_cons_eq_if_modifyHead]
      split
      · rintro piece (_ | ⟨_, member⟩)
        · simp
        · exact ih piece member
      · rename_i kept
        cases shape : list.splitOnP p with
        | nil => exact absurd shape (List.splitOnP_ne_nil p list)
        | cons head rest =>
            rw [shape] at ih
            rintro piece (_ | ⟨_, member⟩)
            · rintro x (_ | ⟨_, inside⟩)
              · simpa using kept
              · exact ih head List.mem_cons_self x inside
            · exact ih piece (List.mem_cons_of_mem head member)

theorem entry_of_mem_entries {spec piece : Text} (member : piece ∈ entries spec) :
    Entry piece := by
  rw [entries, List.mem_filter] at member
  rw [entry_iff]
  exact ⟨by simpa using member.2, eq_false_of_mem_splitOnP piece member.1⟩

/-- Entries with commas between them are a list of those entries. -/
theorem entries_intercalate {texts : List Text} (all : ∀ text ∈ texts, Entry text) :
    entries ([','].intercalate texts) = texts := by
  induction texts with
  | nil => rfl
  | cons first texts ih =>
      have entry := entry_iff.mp (all first List.mem_cons_self)
      have rest := ih fun text member => all text (List.mem_cons_of_mem first member)
      cases texts with
      | nil =>
          rw [List.intercalate_singleton, entries, List.splitOnP_eq_singleton entry.2]
          simp [entry.1]
      | cons second texts =>
          rw [List.intercalate_cons_cons, List.append_assoc, List.singleton_append, entries,
            List.splitOnP_append_cons_of_forall_mem entry.2 ',' (by decide),
            List.filter_cons_of_pos (by simpa using entry.1)]
          exact congrArg (first :: ·) rest

/-! ## Reading every entry -/

section MapM

variable {α β ε : Type} {f : α → Except ε β}

/-- A list is read when each of its elements is. -/
theorem mapM_eq_ok_iff {list : List α} {values : List β} :
    list.mapM f = .ok values ↔ List.Forall₂ (fun x y => f x = .ok y) list values := by
  induction list generalizing values with
  | nil =>
      rw [List.mapM_nil, List.forall₂_nil_left_iff]
      exact ⟨fun read => (Except.ok.inj read).symm, fun empty => by rw [empty]; rfl⟩
  | cons first list ih =>
      rw [List.mapM_cons]
      cases head : f first with
      | error e =>
          constructor
          · rintro ⟨⟩
          · intro all
            cases all with
            | cons read rest => rw [head] at read; cases read
      | ok value =>
          cases tail : list.mapM f with
          | error e =>
              constructor
              · rintro ⟨⟩
              · intro all
                cases all with
                | cons read rest => rw [ih.mpr rest] at tail; cases tail
          | ok others =>
              constructor
              · rintro ⟨⟩
                exact .cons head (ih.mp tail)
              · intro all
                cases all with
                | cons read rest =>
                    rw [head] at read
                    rw [ih.mpr rest] at tail
                    cases read
                    cases tail
                    rfl

theorem exists_mapM_eq_error_iff {list : List α} :
    (∃ e, list.mapM f = .error e) ↔ ∃ x ∈ list, ∃ e, f x = .error e := by
  constructor
  · rintro ⟨e, failed⟩
    induction list with
    | nil => cases failed
    | cons first list ih =>
        rw [List.mapM_cons] at failed
        cases head : f first with
        | error e => exact ⟨first, List.mem_cons_self, e, head⟩
        | ok value =>
            rw [head] at failed
            cases tail : list.mapM f with
            | error other =>
                rw [tail] at failed ih
                cases failed
                rcases ih rfl with ⟨x, member, refused⟩
                exact ⟨x, List.mem_cons_of_mem first member, refused⟩
            | ok others =>
                rw [tail] at failed
                cases failed
  · rintro ⟨x, member, e, refused⟩
    cases read : list.mapM f with
    | error other => exact ⟨other, rfl⟩
    | ok values =>
        rcases List.forall₂_iff_get.mp (mapM_eq_ok_iff.mp read) with ⟨length, each⟩
        rcases List.getElem_of_mem member with ⟨i, bound, rfl⟩
        have value := each i bound (length ▸ bound)
        rw [List.get_eq_getElem] at value
        rw [value] at refused
        cases refused

/-- The values of a list that is read are those of its elements. -/
theorem mem_of_mapM_eq_ok {list : List α} {values : List β} (read : list.mapM f = .ok values)
    {y : β} : y ∈ values ↔ ∃ x ∈ list, f x = .ok y := by
  have all := mapM_eq_ok_iff.mp read
  clear read
  induction all with
  | nil => simp
  | @cons x value list values head _ ih =>
      rw [List.mem_cons]
      constructor
      · rintro (rfl | later)
        · exact ⟨x, List.mem_cons_self, head⟩
        · rcases ih.mp later with ⟨other, member, also⟩
          exact ⟨other, List.mem_cons_of_mem x member, also⟩
      · rintro ⟨other, member, also⟩
        rcases List.mem_cons.mp member with rfl | later
        · rw [head] at also
          exact Or.inl (Except.ok.inj also).symm
        · exact Or.inr (ih.mpr ⟨other, later, also⟩)

end MapM

/-! ## The normal form -/

namespace Iroh

section Normal

variable {Id Url : Type} {iroh : Iroh Id Url}

theorem parseRelayUrl_eq_ok_iff {entry : Text} {url : Url} :
    iroh.parseRelayUrl entry = .ok url ↔ iroh.parseUrl entry = some url ∧ iroh.Web url := by
  rw [parseRelayUrl]
  cases iroh.parseUrl entry with
  | none =>
      constructor
      · rintro ⟨⟩
      · rintro ⟨⟨⟩, -⟩
  | some parsed =>
      dsimp only
      split
      · rename_i web
        constructor
        · rintro ⟨⟩
          exact ⟨rfl, web⟩
        · rintro ⟨⟨⟩, -⟩
          rfl
      · rename_i other
        constructor
        · rintro ⟨⟩
        · rintro ⟨⟨⟩, web⟩
          exact absurd web other

theorem exists_parseRelayUrl_eq_error_iff {entry : Text} :
    (∃ message, iroh.parseRelayUrl entry = .error message) ↔ iroh.Refused entry := by
  constructor
  · rintro ⟨message, failed⟩ url parsed web
    rw [parseRelayUrl_eq_ok_iff.mpr ⟨parsed, web⟩] at failed
    cases failed
  · intro refused
    cases read : iroh.parseRelayUrl entry with
    | error message => exact ⟨message, rfl⟩
    | ok url =>
        rcases parseRelayUrl_eq_ok_iff.mp read with ⟨parsed, web⟩
        exact absurd web (refused url parsed)

variable (iroh) in
/-- The URLs of a list in the order of their texts, each once. -/
def ordered (urls : List Url) : List Url :=
  (urls.insertionSort fun first second =>
    precedes (iroh.urlText first) (iroh.urlText second)).destutter
      fun first second => iroh.urlText first ≠ iroh.urlText second

theorem parseRelays_eq (spec : Text) :
    iroh.parseRelays spec = ((entries spec).mapM iroh.parseRelayUrl).map iroh.ordered :=
  rfl

/-- The texts of the URLs, in their order and each once. -/
theorem map_urlText_ordered (urls : List Url) :
    (iroh.ordered urls).map iroh.urlText =
      ascending (fun first second => precedes first second = true) (urls.map iroh.urlText) := by
  have sorted := List.map_insertionSort
    (fun first second => precedes (iroh.urlText first) (iroh.urlText second) = true)
    (fun first second => precedes first second = true) iroh.urlText urls fun _ _ _ _ => Iff.rfl
  have apart : ∀ list : List Url,
      (list.destutter fun first second => iroh.urlText first ≠ iroh.urlText second).map
        iroh.urlText = (list.map iroh.urlText).destutter (· ≠ ·) := fun _ =>
    List.map_destutter fun _ _ _ _ => Iff.rfl
  rw [ordered, apart, sorted, ascending]

theorem nodup_ordered (urls : List Url) : (iroh.ordered urls).Nodup := by
  apply List.Nodup.of_map iroh.urlText
  rw [map_urlText_ordered]
  exact nodup_ascending _

/-- What a list reads as, before it is put in order. -/
def Reads (iroh : Iroh Id Url) (spec : Text) (urls : List Url) : Prop :=
  (entries spec).mapM iroh.parseRelayUrl = .ok urls

section Reads

variable {spec : Text} {urls : List Url}

theorem Reads.parseRelays (read : iroh.Reads spec urls) :
    iroh.parseRelays spec = .ok (iroh.ordered urls) := by
  rw [parseRelays_eq, read]
  rfl

theorem Reads.normalizeRelays (read : iroh.Reads spec urls) :
    iroh.normalizeRelays spec = .ok ([','].intercalate ((iroh.ordered urls).map iroh.urlText)) := by
  rw [Iroh.normalizeRelays, read.parseRelays]
  rfl

theorem exists_reads_of_parseRelays (read : iroh.parseRelays spec = .ok urls) :
    ∃ named, iroh.Reads spec named := by
  rw [parseRelays_eq] at read
  cases named : (entries spec).mapM iroh.parseRelayUrl with
  | error message =>
      rw [named] at read
      cases read
  | ok list => exact ⟨list, named⟩

theorem Reads.exists_of_mem (read : iroh.Reads spec urls) {url : Url} (member : url ∈ urls) :
    ∃ entry, Entry entry ∧ iroh.parseUrl entry = some url ∧ iroh.Web url := by
  rcases (mem_of_mapM_eq_ok read).mp member with ⟨entry, inside, parsed⟩
  rcases parseRelayUrl_eq_ok_iff.mp parsed with ⟨found, web⟩
  exact ⟨entry, entry_of_mem_entries inside, found, web⟩

theorem Reads.names_iff (read : iroh.Reads spec urls) {url : Url} :
    iroh.Names spec url ↔ url ∈ urls := by
  constructor
  · rintro ⟨entry, member, parsed⟩
    cases taken : iroh.parseRelayUrl entry with
    | error message =>
        rcases exists_mapM_eq_error_iff.mpr ⟨entry, member, message, taken⟩ with ⟨e, failed⟩
        rw [Reads, failed] at read
        cases read
    | ok other =>
        have same := (parseRelayUrl_eq_ok_iff.mp taken).1
        rw [parsed] at same
        cases same
        exact (mem_of_mapM_eq_ok read).mpr ⟨entry, member, taken⟩
  · intro member
    rcases (mem_of_mapM_eq_ok read).mp member with ⟨entry, inside, parsed⟩
    exact ⟨entry, inside, (parseRelayUrl_eq_ok_iff.mp parsed).1⟩

/-- Putting URLs in order leaves no other ones. -/
theorem mem_of_mem_ordered {url : Url} (member : url ∈ iroh.ordered urls) : url ∈ urls := by
  have sorted := (List.destutter_sublist _ _).subset member
  exact (List.mem_insertionSort _).mp sorted

variable (lawful : iroh.LawfulUrls)

include lawful

/-- Two URLs of one text are one URL. -/
theorem LawfulUrls.eq_of_urlText {first second : Url} {firstSpec secondSpec : Text}
    {firstUrls secondUrls : List Url} (read : iroh.Reads firstSpec firstUrls)
    (also : iroh.Reads secondSpec secondUrls) (member : first ∈ firstUrls)
    (inside : second ∈ secondUrls) (same : iroh.urlText first = iroh.urlText second) :
    first = second := by
  rcases read.exists_of_mem member with ⟨entry, isEntry, parsed, -⟩
  rcases also.exists_of_mem inside with ⟨other, alsoEntry, alsoParsed, -⟩
  have back := lawful.parseUrl_urlText isEntry parsed
  rw [same, lawful.parseUrl_urlText alsoEntry alsoParsed] at back
  exact (Option.some.inj back).symm

theorem Reads.mem_ordered (read : iroh.Reads spec urls) {url : Url} :
    url ∈ iroh.ordered urls ↔ url ∈ urls := by
  constructor
  · exact mem_of_mem_ordered
  · intro member
    have text : iroh.urlText url ∈ (iroh.ordered urls).map iroh.urlText := by
      rw [map_urlText_ordered, mem_ascending]
      exact List.mem_map_of_mem member
    rcases List.mem_map.mp text with ⟨other, inside, same⟩
    have equal := lawful.eq_of_urlText read read (mem_of_mem_ordered inside) member same
    exact equal ▸ inside

theorem Reads.entry_of_mem (read : iroh.Reads spec urls) :
    ∀ text ∈ (iroh.ordered urls).map iroh.urlText, Entry text := by
  intro text member
  rcases List.mem_map.mp member with ⟨url, inside, rfl⟩
  rcases read.exists_of_mem (mem_of_mem_ordered inside) with ⟨entry, isEntry, parsed, -⟩
  exact lawful.entry_urlText isEntry parsed

/-- The entries of the normal form are the texts it is made of. -/
theorem Reads.entries_normal (read : iroh.Reads spec urls) :
    entries ([','].intercalate ((iroh.ordered urls).map iroh.urlText)) =
      (iroh.ordered urls).map iroh.urlText :=
  entries_intercalate (read.entry_of_mem lawful)

/-- The normal form reads as the URLs it was made of. -/
theorem Reads.normal (read : iroh.Reads spec urls) :
    iroh.Reads ([','].intercalate ((iroh.ordered urls).map iroh.urlText)) (iroh.ordered urls) := by
  rw [Reads, read.entries_normal lawful, mapM_eq_ok_iff, List.forall₂_map_left_iff]
  apply List.forall₂_same.mpr
  intro url member
  rcases read.exists_of_mem (mem_of_mem_ordered member) with ⟨entry, isEntry, parsed, web⟩
  exact parseRelayUrl_eq_ok_iff.mpr ⟨lawful.parseUrl_urlText isEntry parsed, web⟩

/-- A list in normal form is in normal form. -/
theorem Reads.normalizeRelays_normal (read : iroh.Reads spec urls) :
    iroh.normalizeRelays ([','].intercalate ((iroh.ordered urls).map iroh.urlText)) =
      .ok ([','].intercalate ((iroh.ordered urls).map iroh.urlText)) := by
  rw [(read.normal lawful).normalizeRelays, map_urlText_ordered (iroh.ordered urls),
    map_urlText_ordered urls, ascending_ascending]

/-- Two lists have one normal form exactly when they name the same URLs. -/
theorem normalizeRelays_eq_iff {first second : Text} {firstUrls secondUrls : List Url}
    (read : iroh.Reads first firstUrls) (also : iroh.Reads second secondUrls) :
    iroh.normalizeRelays first = iroh.normalizeRelays second ↔
      ∀ url, iroh.Names first url ↔ iroh.Names second url := by
  rw [read.normalizeRelays, also.normalizeRelays]
  constructor
  · intro same url
    have normal := congrArg entries (Except.ok.inj same)
    rw [read.entries_normal lawful, also.entries_normal lawful, map_urlText_ordered,
      map_urlText_ordered, ascending_eq_iff] at normal
    rw [read.names_iff, also.names_iff]
    constructor
    · intro member
      have text := (normal _).mp (List.mem_map_of_mem member)
      rcases List.mem_map.mp text with ⟨other, inside, same⟩
      exact lawful.eq_of_urlText also read inside member same ▸ inside
    · intro member
      have text := (normal _).mpr (List.mem_map_of_mem member)
      rcases List.mem_map.mp text with ⟨other, inside, same⟩
      exact lawful.eq_of_urlText read also inside member same ▸ inside
  · intro same
    rw [map_urlText_ordered, map_urlText_ordered]
    have texts : ∀ text, text ∈ firstUrls.map iroh.urlText ↔ text ∈ secondUrls.map iroh.urlText := by
      intro text
      simp only [List.mem_map, ← read.names_iff, ← also.names_iff, same]
    rw [ascending_eq_iff.mpr texts]

/-- The normal form is empty exactly when no URL is named. -/
theorem Reads.normalizeRelays_eq_nil_iff (read : iroh.Reads spec urls) :
    iroh.normalizeRelays spec = .ok [] ↔ iroh.ordered urls = [] := by
  rw [read.normalizeRelays]
  constructor
  · intro empty
    have none := read.entries_normal lawful
    rw [Except.ok.inj empty] at none
    exact List.map_eq_nil_iff.mp none.symm
  · intro empty
    rw [empty]
    rfl

end Reads

/-- The lists that are refused, by all three readers with one message. -/
theorem exists_error_iff {spec : Text} :
    (∃ message, iroh.parseRelays spec = .error message ∧
        iroh.normalizeRelays spec = .error message ∧ iroh.relayMode spec = .error message) ↔
      ∃ entry ∈ entries spec, iroh.Refused entry := by
  simp only [← exists_parseRelayUrl_eq_error_iff]
  rw [← exists_mapM_eq_error_iff]
  constructor
  · rintro ⟨message, failed, -, -⟩
    cases read : (entries spec).mapM iroh.parseRelayUrl with
    | error other => exact ⟨other, rfl⟩
    | ok urls =>
        rw [parseRelays_eq, read] at failed
        cases failed
  · rintro ⟨message, failed⟩
    have unread : iroh.parseRelays spec = .error message := by
      rw [parseRelays_eq, failed]
      rfl
    refine ⟨message, unread, ?_, ?_⟩
    · rw [normalizeRelays, unread]
      rfl
    · rw [relayMode, unread]
      rfl

/-- Relay lists compare as the maps they make: accepted lists have one normal form
exactly when they name one set of URLs, a normal form is its own, and the mode is
the default exactly when it is empty and else has that set.  A list is refused
exactly when an entry is. -/
theorem relay_lists_compare (lawful : iroh.LawfulUrls) :
    (∀ first second firstUrls secondUrls, iroh.parseRelays first = .ok firstUrls →
        iroh.parseRelays second = .ok secondUrls →
        (iroh.normalizeRelays first = iroh.normalizeRelays second ↔
          ∀ url, iroh.Names first url ↔ iroh.Names second url)) ∧
      (∀ spec urls, iroh.parseRelays spec = .ok urls →
        (iroh.normalizeRelays spec).bind iroh.normalizeRelays = iroh.normalizeRelays spec ∧
        (iroh.relayMode spec = .ok none ↔ iroh.normalizeRelays spec = .ok []) ∧
        (iroh.relayMode spec ≠ .ok none → ∃ relays,
          iroh.relayMode spec = .ok (some (.custom relays)) ∧ relays.Nodup ∧
            ∀ url, url ∈ relays ↔ iroh.Names spec url)) ∧
      ∀ spec, (∃ message, iroh.parseRelays spec = .error message ∧
          iroh.normalizeRelays spec = .error message ∧ iroh.relayMode spec = .error message) ↔
        ∃ entry ∈ entries spec, iroh.Refused entry := by
  refine ⟨?_, ?_, fun spec => exists_error_iff⟩
  · intro first second firstUrls secondUrls accepted also
    rcases exists_reads_of_parseRelays accepted with ⟨named, read⟩
    rcases exists_reads_of_parseRelays also with ⟨alsoNamed, alsoRead⟩
    exact normalizeRelays_eq_iff lawful read alsoRead
  · intro spec urls accepted
    rcases exists_reads_of_parseRelays accepted with ⟨named, read⟩
    refine ⟨?_, ?_, ?_⟩
    · rw [read.normalizeRelays]
      exact read.normalizeRelays_normal lawful
    · rw [read.normalizeRelays_eq_nil_iff lawful, relayMode, read.parseRelays]
      cases iroh.ordered named with
      | nil => exact ⟨fun _ => rfl, fun _ => rfl⟩
      | cons url urls =>
          constructor
          · rintro ⟨⟩
          · rintro ⟨⟩
    · intro chosen
      refine ⟨iroh.ordered named, ?_, nodup_ordered named, fun url => ?_⟩
      · rw [relayMode, read.parseRelays] at chosen ⊢
        cases shape : iroh.ordered named with
        | nil =>
            rw [shape] at chosen
            exact absurd rfl chosen
        | cons url urls => rfl
      · rw [read.mem_ordered lawful, read.names_iff]

end Normal

/-- A reader of URLs that are taken as they are written. -/
def verbatim : Iroh Unit Text where
  fromStr _ := none
  fromZ32 _ := none
  toZ32 _ := []
  parseUrl text := if (findWord "://".toList text).isSome then some text else none
  scheme := beforeFirst ':'
  urlText := id

theorem eq_of_parseUrl_verbatim {text url : Text} (parsed : verbatim.parseUrl text = some url) :
    url = text := by
  dsimp only [verbatim] at parsed
  rw [Option.ite_none_right_eq_some] at parsed
  exact (Option.some.inj parsed.2).symm

theorem lawfulUrls_verbatim : verbatim.LawfulUrls where
  entry_urlText := by
    intro text url entry parsed
    obtain rfl := eq_of_parseUrl_verbatim parsed
    exact entry
  parseUrl_urlText := by
    intro text url entry parsed
    obtain rfl := eq_of_parseUrl_verbatim parsed
    exact parsed

/-- Two spellings of two relays, and a list with a relay of another scheme. -/
theorem relay_lists_compare_verbatim :
    (verbatim.normalizeRelays " https://b.example./,https://a.example./ https://b.example./".toList =
        verbatim.normalizeRelays "https://a.example./\thttps://b.example./".toList ↔
      ∀ url, verbatim.Names
          " https://b.example./,https://a.example./ https://b.example./".toList url ↔
        verbatim.Names "https://a.example./\thttps://b.example./".toList url) ∧
      (verbatim.normalizeRelays "https://a.example./\thttps://b.example./".toList).bind
          verbatim.normalizeRelays =
        verbatim.normalizeRelays "https://a.example./\thttps://b.example./".toList ∧
      ∃ message,
        verbatim.parseRelays "https://a.example./,ftp://a.example./".toList = .error message := by
  have compare := relay_lists_compare lawfulUrls_verbatim
  refine ⟨?_, ?_, ?_⟩
  · exact compare.1 _ _ ["https://a.example./".toList, "https://b.example./".toList]
      ["https://a.example./".toList, "https://b.example./".toList]
      (by decide +kernel) (by decide +kernel)
  · exact (compare.2.1 _ ["https://a.example./".toList, "https://b.example./".toList]
      (by decide +kernel)).1
  · have refused : verbatim.Refused "ftp://a.example./".toList := by
      intro url parsed
      obtain rfl := eq_of_parseUrl_verbatim parsed
      rw [Web]
      decide +kernel
    rcases (compare.2.2 "https://a.example./,ftp://a.example./".toList).mpr
      ⟨"ftp://a.example./".toList, by decide +kernel, refused⟩ with ⟨message, failed, -⟩
    exact ⟨message, failed⟩

end Iroh

end Quackhole.Ticket
