import Quackhole.Word.Text
import Mathlib.Data.List.Sort

/-!
# Plain objects

The own properties of an object that is used as a dictionary, in the order in which they
were made.  A name is there once, and has the value it was given last.  They are listed in
another order: the names that are array indices come first.
-/

namespace Quackhole.Word.Record

variable {α : Type}

/-- A property is defined: an old value is replaced where it stands. -/
def put (name : Text) (value : α) : List (Text × α) → List (Text × α)
  | [] => [(name, value)]
  | (other, old) :: object =>
      if other = name then (name, value) :: object else (other, old) :: put name value object

/-- The accessor every plain object inherits. -/
def proto : Text :=
  "__proto__".toList

/-- `object[name] = value`, for a value that is a string: the accessor ignores it. -/
def set (object : List (Text × α)) (entry : Text × α) : List (Text × α) :=
  if entry.1 = proto then object else put entry.1 entry.2 object

/-- One assignment after the other. -/
def setAll (object entries : List (Text × α)) : List (Text × α) :=
  entries.foldl set object

/-- `Object.fromEntries`. -/
def fromEntries (entries : List (Text × α)) : List (Text × α) :=
  entries.foldl (fun object entry => put entry.1 entry.2 object) []

/-- The number of a name that is an array index. -/
def arrayIndex (name : Text) : Option Nat :=
  (parseUnsigned 10 4294967295 name).filter fun index => decimal index == name

/-- No later than. -/
def Earlier (first second : Text × α) : Prop :=
  (arrayIndex first.1).getD 0 ≤ (arrayIndex second.1).getD 0

instance : DecidableRel (Earlier (α := α)) :=
  fun _ _ => inferInstanceAs (Decidable (_ ≤ _))

/-- `Object.entries`: array indices in ascending order, and then the other names. -/
def entries (object : List (Text × α)) : List (Text × α) :=
  (object.filter fun entry => (arrayIndex entry.1).isSome).insertionSort Earlier ++
    object.filter fun entry => !(arrayIndex entry.1).isSome

/-- Defining and assigning differ in the accessor alone. -/
theorem fromEntries_eq_setAll {entries : List (Text × α)} (own : proto ∉ entries.map Prod.fst) :
    fromEntries entries = setAll [] entries := by
  have general : ∀ object : List (Text × α),
      entries.foldl (fun object entry => put entry.1 entry.2 object) object =
        setAll object entries := by
    induction entries with
    | nil => exact fun _ => rfl
    | cons entry entries ih =>
        rw [List.map_cons, List.mem_cons, not_or] at own
        intro object
        have defined : set object entry = put entry.1 entry.2 object := if_neg (Ne.symm own.1)
        rw [List.foldl_cons, ih own.2, ← defined]
        rfl
  exact general []

/-! ## The value of a name -/

theorem lookup_cons_eq (entry : Text × α) (object : List (Text × α)) (name : Text) :
    (entry :: object).lookup name = if name = entry.1 then some entry.2 else object.lookup name := by
  obtain ⟨key, value⟩ := entry
  rw [List.lookup_cons]
  by_cases here : name = key
  · simp [here]
  · have elsewhere : (name == key) = false := beq_eq_false_iff_ne.mpr here
    rw [elsewhere, if_neg here]

theorem lookup_put (name : Text) (value : α) (object : List (Text × α)) (other : Text) :
    (put name value object).lookup other =
      if other = name then some value else object.lookup other := by
  induction object with
  | nil => exact lookup_cons_eq _ _ _
  | cons entry object ih =>
      obtain ⟨key, old⟩ := entry
      rw [put]
      by_cases replaced : key = name
      · subst replaced
        rw [if_pos rfl, lookup_cons_eq, lookup_cons_eq]
        split_ifs <;> rfl
      · rw [if_neg replaced, lookup_cons_eq, lookup_cons_eq, ih]
        by_cases here : other = key
        · subst here
          rw [if_pos rfl, if_neg replaced, if_pos rfl]
        · rw [if_neg here, if_neg here]

/-- An assignment changes no other name. -/
theorem lookup_set (object : List (Text × α)) (entry : Text × α) {name : Text}
    (own : name ≠ proto) :
    (set object entry).lookup name =
      if name = entry.1 then some entry.2 else object.lookup name := by
  rw [set]
  split
  · rename_i ignored
    rw [if_neg fun same => own (same.trans ignored)]
  · exact lookup_put _ _ _ _

/-- The last assignment to a name counts. -/
theorem lookup_setAll (object entries : List (Text × α)) {name : Text} (own : name ≠ proto) :
    (setAll object entries).lookup name =
      (entries.reverse.lookup name).or (object.lookup name) := by
  induction entries generalizing object with
  | nil => rfl
  | cons entry entries ih =>
      have folded : setAll object (entry :: entries) = setAll (set object entry) entries := rfl
      rw [folded, ih, lookup_set object entry own, List.reverse_cons, List.lookup_append,
        Option.or_assoc, lookup_cons_eq]
      congr 1
      split_ifs <;> rfl

/-- The accessor's name is never there. -/
theorem lookup_setAll_proto {object : List (Text × α)} (absent : object.lookup proto = none)
    (entries : List (Text × α)) : (setAll object entries).lookup proto = none := by
  induction entries generalizing object with
  | nil => exact absent
  | cons entry entries ih =>
      apply ih
      rw [set]
      split
      · exact absent
      · rename_i other
        rw [lookup_put, if_neg fun same => other same.symm, absent]

/-! ## The names -/

theorem mem_names_put {name other : Text} {value : α} {object : List (Text × α)}
    (member : other ∈ (put name value object).map Prod.fst) :
    other = name ∨ other ∈ object.map Prod.fst := by
  induction object with
  | nil => exact Or.inl (List.mem_singleton.mp member)
  | cons entry object ih =>
      obtain ⟨key, old⟩ := entry
      rw [put] at member
      split at member
      · rcases List.mem_cons.mp member with same | later
        · exact Or.inl same
        · exact Or.inr (List.mem_cons_of_mem _ later)
      · rcases List.mem_cons.mp member with same | later
        · exact Or.inr (same ▸ List.mem_cons_self)
        · exact (ih later).imp_right (List.mem_cons_of_mem _)

theorem nodup_put {object : List (Text × α)} (distinct : (object.map Prod.fst).Nodup)
    (name : Text) (value : α) : ((put name value object).map Prod.fst).Nodup := by
  induction object with
  | nil => exact List.nodup_singleton name
  | cons entry object ih =>
      obtain ⟨key, old⟩ := entry
      rw [List.map_cons, List.nodup_cons] at distinct
      rw [put]
      split
      · rename_i replaced
        rw [List.map_cons, List.nodup_cons]
        exact ⟨fun later => distinct.1 (replaced ▸ later), distinct.2⟩
      · rename_i kept
        rw [List.map_cons, List.nodup_cons]
        refine ⟨fun later => ?_, ih distinct.2⟩
        rcases mem_names_put later with same | early
        · exact kept same
        · exact distinct.1 early

theorem nodup_set {object : List (Text × α)} (distinct : (object.map Prod.fst).Nodup)
    (entry : Text × α) : ((set object entry).map Prod.fst).Nodup := by
  rw [set]
  split
  · exact distinct
  · exact nodup_put distinct _ _

/-- However often names are assigned to, each is there once. -/
theorem nodup_setAll {object : List (Text × α)} (distinct : (object.map Prod.fst).Nodup)
    (entries : List (Text × α)) : ((setAll object entries).map Prod.fst).Nodup := by
  induction entries generalizing object with
  | nil => exact distinct
  | cons entry entries ih => exact ih (nodup_set distinct entry)

/-- The same, from an empty object. -/
theorem nodup_setAll_nil (entries : List (Text × α)) :
    ((setAll [] entries).map Prod.fst).Nodup :=
  @nodup_setAll α [] List.nodup_nil entries

theorem mem_put {name : Text} {value : α} {object : List (Text × α)} {entry : Text × α}
    (member : entry ∈ put name value object) : entry = (name, value) ∨ entry ∈ object := by
  induction object with
  | nil => exact Or.inl (List.mem_singleton.mp member)
  | cons first object ih =>
      obtain ⟨key, old⟩ := first
      rw [put] at member
      split at member
      · exact (List.mem_cons.mp member).imp_right (List.mem_cons_of_mem _)
      · rcases List.mem_cons.mp member with same | later
        · exact Or.inr (same ▸ List.mem_cons_self)
        · exact (ih later).imp_right (List.mem_cons_of_mem _)

/-- Nothing is in the object that was not put there. -/
theorem mem_setAll {object entries : List (Text × α)} {entry : Text × α}
    (member : entry ∈ setAll object entries) : entry ∈ object ∨ entry ∈ entries := by
  induction entries generalizing object with
  | nil => exact Or.inl member
  | cons first entries ih =>
      rcases ih member with early | later
      · rw [set] at early
        split at early
        · exact Or.inl early
        · rcases mem_put early with rfl | old
          · exact Or.inr List.mem_cons_self
          · exact Or.inl old
      · exact Or.inr (List.mem_cons_of_mem _ later)

theorem put_of_absent {name : Text} {object : List (Text × α)}
    (absent : name ∉ object.map Prod.fst) (value : α) :
    put name value object = object ++ [(name, value)] := by
  induction object with
  | nil => rfl
  | cons entry object ih =>
      rw [List.map_cons, List.mem_cons, not_or] at absent
      rw [put, if_neg fun same => absent.1 same.symm, ih absent.2, List.cons_append]

/-- Different names are all kept, in order. -/
theorem setAll_of_nodup {object entries : List (Text × α)}
    (distinct : ((object ++ entries).map Prod.fst).Nodup)
    (own : proto ∉ entries.map Prod.fst) : setAll object entries = object ++ entries := by
  induction entries generalizing object with
  | nil => exact (List.append_nil object).symm
  | cons entry entries ih =>
      rw [List.map_cons, List.mem_cons, not_or] at own
      have absent : entry.1 ∉ object.map Prod.fst := by
        rw [List.map_append, List.nodup_append] at distinct
        exact fun early => distinct.2.2 _ early _ List.mem_cons_self rfl
      have moved : object ++ entry :: entries = object ++ [entry] ++ entries := by simp
      have added : set object entry = object ++ [entry] := by
        rw [set, if_neg (Ne.symm own.1), put_of_absent absent]
      rw [moved] at distinct ⊢
      calc
        setAll object (entry :: entries) = setAll (set object entry) entries := rfl
        _ = object ++ [entry] ++ entries := by rw [added, ih distinct own.2]

/-! ## The listing -/

/-- Everything is listed once. -/
theorem entries_perm (object : List (Text × α)) : (entries object).Perm object :=
  ((List.perm_insertionSort Earlier _).append_right _).trans
    (List.filter_append_perm (fun entry : Text × α => (arrayIndex entry.1).isSome) object)

/-- Names that are no array indices are listed as they were made. -/
theorem entries_of_named {object : List (Text × α)}
    (named : ∀ entry ∈ object, arrayIndex entry.1 = none) : entries object = object := by
  have indices : object.filter (fun entry => (arrayIndex entry.1).isSome) = [] := by
    rw [List.filter_eq_nil_iff]
    intro entry member
    simp [named entry member]
  have others : object.filter (fun entry => !(arrayIndex entry.1).isSome) = object := by
    rw [List.filter_eq_self]
    intro entry member
    simp [named entry member]
  rw [entries, indices, others, List.insertionSort_nil, List.nil_append]

theorem nodup_entries {object : List (Text × α)} (distinct : (object.map Prod.fst).Nodup) :
    ((entries object).map Prod.fst).Nodup :=
  ((entries_perm object).map Prod.fst).nodup_iff.mpr distinct

/-- The order depends on the names alone. -/
theorem entries_map {β : Type} (f : α → β) (object : List (Text × α)) :
    entries (object.map fun entry => (entry.1, f entry.2)) =
      (entries object).map fun entry => (entry.1, f entry.2) := by
  have sorted : ∀ list : List (Text × α),
      (list.insertionSort Earlier).map (fun entry => (entry.1, f entry.2)) =
        (list.map fun entry => (entry.1, f entry.2)).insertionSort Earlier := fun list =>
    List.map_insertionSort Earlier Earlier _ list fun _ _ _ _ => Iff.rfl
  rw [entries, entries, List.map_append, sorted, List.filter_map, List.filter_map]
  rfl

theorem lookup_map_values {β : Type} (f : α → β) (object : List (Text × α)) (name : Text) :
    (object.map fun entry => (entry.1, f entry.2)).lookup name = (object.lookup name).map f := by
  induction object with
  | nil => rfl
  | cons entry object ih =>
      rw [List.map_cons, lookup_cons_eq, lookup_cons_eq, ih]
      split <;> rfl

/-- A name that is there has a value. -/
theorem exists_lookup_of_mem {object : List (Text × α)} {name : Text}
    (member : name ∈ object.map Prod.fst) : ∃ value, object.lookup name = some value := by
  obtain ⟨entry, inside, rfl⟩ := List.mem_map.mp member
  apply Option.isSome_iff_exists.mp
  exact List.lookup_isSome_iff.mpr ⟨entry, inside, beq_self_eq_true _⟩

theorem mem_of_lookup {object : List (Text × α)} {name : Text} {value : α}
    (found : object.lookup name = some value) : (name, value) ∈ object := by
  obtain ⟨before, after, rfl, -⟩ := List.lookup_eq_some_iff.mp found
  exact List.mem_append_right before List.mem_cons_self

/-- The entry of a name is its value. -/
theorem lookup_eq_some_iff_mem {object : List (Text × α)}
    (distinct : (object.map Prod.fst).Nodup) {name : Text} {value : α} :
    object.lookup name = some value ↔ (name, value) ∈ object := by
  induction object with
  | nil => simp
  | cons entry object ih =>
      obtain ⟨key, old⟩ := entry
      rw [List.map_cons, List.nodup_cons] at distinct
      rw [lookup_cons_eq, List.mem_cons]
      by_cases here : name = key
      · subst here
        have absent : (name, value) ∉ object := fun later =>
          distinct.1 (List.mem_map.mpr ⟨_, later, rfl⟩)
        simp [absent, eq_comm]
      · rw [if_neg here, ih distinct.2]
        simp [here]

/-- The order does not matter to the values. -/
theorem lookup_of_perm {first second : List (Text × α)} (same : first.Perm second)
    (distinct : (second.map Prod.fst).Nodup) (name : Text) :
    first.lookup name = second.lookup name := by
  apply Option.ext
  intro value
  calc
    first.lookup name = some value ↔ (name, value) ∈ first :=
      lookup_eq_some_iff_mem ((same.map Prod.fst).nodup_iff.mpr distinct)
    _ ↔ (name, value) ∈ second := same.mem_iff
    _ ↔ second.lookup name = some value := (lookup_eq_some_iff_mem distinct).symm

theorem lookup_reverse {object : List (Text × α)} (distinct : (object.map Prod.fst).Nodup)
    (name : Text) : object.reverse.lookup name = object.lookup name :=
  lookup_of_perm object.reverse_perm distinct name

theorem lookup_entries {object : List (Text × α)} (distinct : (object.map Prod.fst).Nodup)
    (name : Text) : (entries object).lookup name = object.lookup name :=
  lookup_of_perm (entries_perm object) distinct name

end Quackhole.Word.Record
