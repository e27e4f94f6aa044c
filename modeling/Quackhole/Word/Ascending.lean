import Quackhole.Word.Text
import Mathlib.Data.List.Destutter
import Mathlib.Data.List.Sort
import Mathlib.Order.Defs.LinearOrder

/-!
# Ascending lists

A list that is sorted and then rid of repeated neighbours has each of its
elements once, and is the only such list in that order.  The order of texts is
one that this can be done with.
-/

namespace Quackhole.Word

section Ordered

variable {α : Type} {r : α → α → Prop} [Std.Antisymm r]

/-- In an ordered list an element can only be repeated next to itself. -/
theorem nodup_of_isChain {list : List α} (ordered : list.Pairwise r)
    (chain : list.IsChain (· ≠ ·)) : list.Nodup := by
  induction list with
  | nil => exact List.nodup_nil
  | cons first list ih =>
      rw [List.pairwise_cons] at ordered
      rw [List.nodup_cons]
      refine ⟨fun again => ?_, ih ordered.2 chain.tail⟩
      cases list with
      | nil => cases again
      | cons second rest =>
          have different : first ≠ second := (List.isChain_cons_cons.mp chain).1
          rcases List.mem_cons.mp again with same | later
          · exact different same
          · have after : r second first := (List.pairwise_cons.mp ordered.2).1 first later
            exact different (antisymm (ordered.1 second List.mem_cons_self) after)

/-- There is one ordered list without repetitions for a set of elements. -/
theorem eq_of_mem_iff {first second : List α} (ordered : first.Pairwise r)
    (distinct : first.Nodup) (alsoOrdered : second.Pairwise r) (alsoDistinct : second.Nodup)
    (same : ∀ x, x ∈ first ↔ x ∈ second) : first = second :=
  ((List.perm_ext_iff_of_nodup distinct alsoDistinct).mpr same).eq_of_pairwise' ordered alsoOrdered

end Ordered

section Ascending

variable {α : Type} [DecidableEq α]

theorem mem_destutter'_ne {x first : α} {list : List α} :
    x ∈ list.destutter' (· ≠ ·) first ↔ x = first ∨ x ∈ list := by
  induction list generalizing first with
  | nil => simp
  | cons second list ih =>
      by_cases different : first ≠ second
      · rw [List.destutter'_cons_pos _ different, List.mem_cons, ih, List.mem_cons]
      · obtain rfl : first = second := not_not.mp different
        rw [List.destutter'_cons_neg _ different, ih, List.mem_cons, or_self_left]

/-- Dropping repeated neighbours keeps the elements of a list. -/
theorem mem_destutter_ne {x : α} {list : List α} :
    x ∈ list.destutter (· ≠ ·) ↔ x ∈ list := by
  cases list with
  | nil => rfl
  | cons first list => rw [List.destutter_cons', mem_destutter'_ne, List.mem_cons]

variable (r : α → α → Prop) [DecidableRel r]

/-- The elements of a list in their order, each once. -/
def ascending (list : List α) : List α :=
  (list.insertionSort r).destutter (· ≠ ·)

variable {r}

@[simp]
theorem mem_ascending {x : α} {list : List α} : x ∈ ascending r list ↔ x ∈ list := by
  rw [ascending, mem_destutter_ne, List.mem_insertionSort]

variable [Std.Total r] [IsTrans α r]

theorem pairwise_ascending (list : List α) : (ascending r list).Pairwise r :=
  (List.pairwise_insertionSort r list).sublist (List.destutter_sublist _ _)

variable [Std.Antisymm r]

theorem nodup_ascending (list : List α) : (ascending r list).Nodup :=
  nodup_of_isChain (pairwise_ascending list) (List.isChain_destutter _ _)

/-- Two lists are made alike exactly when they have the same elements. -/
theorem ascending_eq_iff {first second : List α} :
    ascending r first = ascending r second ↔ ∀ x, x ∈ first ↔ x ∈ second := by
  constructor
  · intro same x
    rw [← mem_ascending (r := r), same, mem_ascending]
  · intro same
    apply eq_of_mem_iff (pairwise_ascending first) (nodup_ascending first)
      (pairwise_ascending second) (nodup_ascending second)
    intro x
    rw [mem_ascending, mem_ascending, same]

/-- What is ascending stays as it is. -/
theorem ascending_ascending (list : List α) :
    ascending r (ascending r list) = ascending r list :=
  ascending_eq_iff.mpr fun _ => mem_ascending

end Ascending

/-! ## Positions in ascending lists -/

section Positions

variable {α : Type} [LinearOrder α]

/-- An element of part of an ascending list is no later in the part than in the
whole, so the whole has nothing greater at that position. -/
theorem exists_le_of_sublist {short long : List α} (part : short.Sublist long)
    (ordered : long.Pairwise (· < ·)) {i : Nat} {x : α} (there : short[i]? = some x) :
    ∃ y, long[i]? = some y ∧ y ≤ x := by
  induction part generalizing i with
  | slnil => cases there
  | @cons short long first part ih =>
      rw [List.pairwise_cons] at ordered
      cases i with
      | zero =>
          have member := part.subset (List.mem_of_getElem? there)
          exact ⟨first, rfl, le_of_lt (ordered.1 x member)⟩
      | succ i =>
          rcases ih ordered.2 there with ⟨y, found, before⟩
          have bound : i + 1 < long.length := (List.getElem?_eq_some_iff.mp found).1
          have less := List.pairwise_iff_getElem.mp ordered.2 i (i + 1) (by omega) bound (by omega)
          rw [(List.getElem?_eq_some_iff.mp found).2] at less
          refine ⟨long[i], ?_, le_trans (le_of_lt less) before⟩
          rw [List.getElem?_cons_succ, List.getElem?_eq_getElem]
  | cons_cons first part ih =>
      rw [List.pairwise_cons] at ordered
      cases i with
      | zero => exact ⟨first, rfl, le_of_eq (Option.some.inj there)⟩
      | succ i => exact ih ordered.2 there

theorem sublist_of_subset {short long : List α} (ordered : short.Pairwise (· < ·))
    (alsoOrdered : long.Pairwise (· < ·)) (inside : short ⊆ long) : short.Sublist long :=
  List.sublist_of_subperm_of_pairwise (List.subperm_of_subset ordered.nodup inside)
    (ordered.imp le_of_lt) (alsoOrdered.imp le_of_lt)

/-- The elements of an ascending list in another order, none of them greater than
what stood in its place, are in the same order. -/
theorem eq_of_perm_of_forall₂_le {list chain : List α} (same : list.Perm chain)
    (below : List.Forall₂ (· ≤ ·) list chain) (ordered : chain.Pairwise (· < ·)) :
    list = chain := by
  induction below with
  | nil => rfl
  | @cons x first list chain less below ih =>
      rw [List.pairwise_cons] at ordered
      have least : first ≤ x := by
        rcases List.mem_cons.mp (same.subset List.mem_cons_self) with equal | later
        · exact le_of_eq equal.symm
        · exact le_of_lt (ordered.1 x later)
      obtain rfl : x = first := le_antisymm less least
      rw [ih same.cons_inv ordered.2]

/-- When everything else in an ascending list is greater than all of an ascending
list in it, that list comes first. -/
theorem prefix_of_forall_lt {short long : List α} (ordered : short.Pairwise (· < ·))
    (alsoOrdered : long.Pairwise (· < ·)) (inside : short ⊆ long)
    (greater : ∀ x ∈ long, x ∈ short ∨ ∀ y ∈ short, y < x) : short <+: long := by
  refine ⟨long.filter fun x => !short.contains x, ?_⟩
  have rest : ∀ x ∈ long.filter (fun x => !short.contains x), x ∈ long ∧ x ∉ short := by
    intro x member
    simpa using List.mem_filter.mp member
  have all : (short ++ long.filter fun x => !short.contains x).Pairwise (· < ·) := by
    rw [List.pairwise_append]
    refine ⟨ordered, alsoOrdered.sublist List.filter_sublist, fun y member x later => ?_⟩
    rcases rest x later with ⟨there, other⟩
    exact (greater x there).resolve_left other y member
  apply all.eq_of_mem_iff alsoOrdered
  intro x
  rw [List.mem_append, List.mem_filter]
  constructor
  · rintro (member | ⟨member, -⟩)
    · exact inside member
    · exact member
  · intro member
    by_cases known : x ∈ short
    · exact Or.inl known
    · exact Or.inr ⟨member, by simpa using known⟩

/-- What is not greater than an element of an ascending list stands no later. -/
theorem mem_take_of_le {list : List α} (ordered : list.Pairwise (· < ·)) {k : Nat} {x y : α}
    (found : list[k]? = some x) (member : y ∈ list) (less : y ≤ x) : y ∈ list.take (k + 1) := by
  rcases List.getElem?_eq_some_iff.mp found with ⟨bound, rfl⟩
  rcases List.getElem_of_mem member with ⟨i, inside, rfl⟩
  have early : i ≤ k := by
    by_contra late
    have greater := List.pairwise_iff_getElem.mp ordered k i bound inside (by omega)
    exact absurd less (not_le_of_gt greater)
  rw [List.mem_take_iff_getElem]
  exact ⟨i, by omega, rfl⟩

end Positions

/-! ## The order of texts -/

theorem precedes_total (first second : Text) :
    precedes first second = true ∨ precedes second first = true := by
  induction first generalizing second with
  | nil => exact Or.inl rfl
  | cons c first ih =>
      cases second with
      | nil => exact Or.inr rfl
      | cons d second =>
          by_cases same : c = d
          · subst same
            simpa only [precedes, if_true] using ih second
          · have numbers : c.toNat ≠ d.toNat := fun equal => same (Char.toNat_inj.mp equal)
            simp only [precedes, if_neg same, if_neg (Ne.symm same), decide_eq_true_eq]
            omega

theorem precedes_antisymm {first second : Text} (before : precedes first second = true)
    (after : precedes second first = true) : first = second := by
  induction first generalizing second with
  | nil =>
      cases second with
      | nil => rfl
      | cons d second => cases after
  | cons c first ih =>
      cases second with
      | nil => cases before
      | cons d second =>
          by_cases same : c = d
          · subst same
            simp only [precedes, if_true] at before after
            rw [ih before after]
          · simp only [precedes, if_neg same, if_neg (Ne.symm same), decide_eq_true_eq]
              at before after
            omega

theorem precedes_trans {first second third : Text} (before : precedes first second = true)
    (after : precedes second third = true) : precedes first third = true := by
  induction first generalizing second third with
  | nil => rfl
  | cons c first ih =>
      cases second with
      | nil => cases before
      | cons d second =>
          cases third with
          | nil => cases after
          | cons e third =>
              simp only [precedes] at before after ⊢
              by_cases cd : c = d
              · subst cd
                rw [if_pos rfl] at before
                by_cases ce : c = e
                · rw [if_pos ce] at after ⊢
                  exact ih before after
                · rwa [if_neg ce] at after ⊢
              · rw [if_neg cd, decide_eq_true_eq] at before
                have numbers : c.toNat < e.toNat := by
                  by_cases de : d = e
                  · rwa [← de]
                  · rw [if_neg de, decide_eq_true_eq] at after
                    exact Nat.lt_trans before after
                have different : c ≠ e := by
                  rintro rfl
                  exact Nat.lt_irrefl _ numbers
                rw [if_neg different]
                exact decide_eq_true numbers

instance : Std.Total fun first second : Text => precedes first second = true :=
  ⟨precedes_total⟩

instance : Std.Antisymm fun first second : Text => precedes first second = true :=
  ⟨fun _ _ => precedes_antisymm⟩

instance : IsTrans Text fun first second : Text => precedes first second = true :=
  ⟨fun _ _ _ => precedes_trans⟩

end Quackhole.Word
