import Mathlib.Data.List.Infix

/-!
# First occurrences and splitting

Searching a word for a pattern and cutting it at every occurrence, with the
facts a parser over byte strings or characters needs: what the first occurrence
is, what a longer or a shorter word says about it, and how a text that was
assembled from lines comes apart again.  Everything is stated over an arbitrary
alphabet with decidable equality.
-/

namespace Quackhole.Word

universe u

variable {α : Type u}

/-- The pattern stands at offset `i` of the word. -/
def OccursAt (pattern word : List α) (i : Nat) : Prop :=
  pattern <+: word.drop i

@[simp]
theorem occursAt_zero (pattern word : List α) :
    OccursAt pattern word 0 ↔ pattern <+: word := by
  simp [OccursAt]

@[simp]
theorem occursAt_cons_succ (pattern word : List α) (letter : α) (i : Nat) :
    OccursAt pattern (letter :: word) (i + 1) ↔ OccursAt pattern word i := by
  simp [OccursAt]

theorem OccursAt.add_length_le {pattern word : List α} {i : Nat}
    (nonempty : pattern ≠ []) (occurs : OccursAt pattern word i) :
    i + pattern.length ≤ word.length := by
  have bound := occurs.length_le
  rw [List.length_drop] at bound
  have positive := List.length_pos_iff.mpr nonempty
  omega

/-- An occurrence in a prefix is an occurrence in the whole word. -/
theorem OccursAt.of_isPrefix {pattern short long : List α} {i : Nat}
    (isPrefix : short <+: long) (occurs : OccursAt pattern short i) :
    OccursAt pattern long i := by
  obtain ⟨rest, rfl⟩ := isPrefix
  by_cases inside : i ≤ short.length
  · rw [OccursAt, List.drop_append_of_le_length inside]
    exact occurs.trans (List.prefix_append _ _)
  · have empty : pattern = [] := by
      rw [OccursAt, List.drop_eq_nil_of_le (by omega)] at occurs
      exact List.prefix_nil.mp occurs
    subst empty
    exact List.nil_prefix

/-- An occurrence that ends within a prefix is an occurrence in the prefix. -/
theorem OccursAt.prefix_of_le {pattern short long : List α} {i : Nat}
    (isPrefix : short <+: long) (ends : i + pattern.length ≤ short.length)
    (occurs : OccursAt pattern long i) : OccursAt pattern short i := by
  obtain ⟨rest, rfl⟩ := isPrefix
  rw [OccursAt, List.drop_append_of_le_length (by omega)] at occurs
  refine List.prefix_of_prefix_length_le occurs (List.prefix_append _ _) ?_
  rw [List.length_drop]
  omega

theorem OccursAt.isInfix {pattern word : List α} {i : Nat}
    (occurs : OccursAt pattern word i) : pattern <:+: word :=
  (List.IsPrefix.isInfix occurs).trans (List.drop_suffix i word).isInfix

theorem isInfix_iff_exists_occursAt {pattern word : List α} :
    pattern <:+: word ↔ ∃ i, OccursAt pattern word i := by
  constructor
  · rintro ⟨before, after, rfl⟩
    refine ⟨before.length, ?_⟩
    simp [OccursAt]
  · rintro ⟨i, occurs⟩
    exact occurs.isInfix

variable [DecidableEq α]

/-- The least offset at which the pattern stands.  The pattern is nonempty in
every use, so an empty word contains none. -/
def findWord (pattern : List α) : List α → Option Nat
  | [] => none
  | letter :: word =>
      if pattern <+: letter :: word then some 0
      else (findWord pattern word).map (· + 1)

@[simp]
theorem findWord_nil (pattern : List α) : findWord pattern [] = none :=
  rfl

/-- The search returns exactly the least offset of an occurrence. -/
theorem findWord_eq_some_iff {pattern word : List α} (nonempty : pattern ≠ []) {i : Nat} :
    findWord pattern word = some i ↔
      OccursAt pattern word i ∧ ∀ j < i, ¬ OccursAt pattern word j := by
  induction word generalizing i with
  | nil => simp [OccursAt, nonempty]
  | cons letter word ih =>
      by_cases here : pattern <+: letter :: word
      · simp only [findWord, if_pos here, Option.some.injEq]
        constructor
        · rintro rfl
          exact ⟨(occursAt_zero _ _).mpr here, fun j impossible => absurd impossible (by omega)⟩
        · rintro ⟨_, least⟩
          by_contra different
          exact least 0 (by omega) ((occursAt_zero _ _).mpr here)
      · simp only [findWord, if_neg here]
        cases i with
        | zero => simp [here]
        | succ i =>
            simp only [Option.map_eq_some_iff, Nat.add_right_cancel_iff, exists_eq_right, ih,
              occursAt_cons_succ]
            refine and_congr_right fun _ => ⟨fun least j below => ?_, fun least j below => ?_⟩
            · cases j with
              | zero => simpa using here
              | succ j => simpa using least j (by omega)
            · simpa using least (j + 1) (by omega)

theorem findWord_eq_none_iff {pattern word : List α} (nonempty : pattern ≠ []) :
    findWord pattern word = none ↔ ¬ pattern <:+: word := by
  induction word with
  | nil => simp [nonempty]
  | cons letter word ih =>
      by_cases here : pattern <+: letter :: word
      · simp [findWord, here, here.isInfix]
      · simp [findWord, here, ih, List.infix_cons_iff]

/-- A search that succeeds in a prefix has the same result in the whole word. -/
theorem findWord_of_isPrefix {pattern short long : List α} (nonempty : pattern ≠ []) {i : Nat}
    (isPrefix : short <+: long) (found : findWord pattern short = some i) :
    findWord pattern long = some i := by
  rw [findWord_eq_some_iff nonempty] at found ⊢
  have ends := found.1.add_length_le nonempty
  refine ⟨found.1.of_isPrefix isPrefix, fun j below occurs => ?_⟩
  exact found.2 j below (occurs.prefix_of_le isPrefix (by omega))

/-- A prefix that still contains the first occurrence finds it. -/
theorem findWord_prefix_of_le {pattern short long : List α} (nonempty : pattern ≠ []) {i : Nat}
    (isPrefix : short <+: long) (ends : i + pattern.length ≤ short.length)
    (found : findWord pattern long = some i) : findWord pattern short = some i := by
  rw [findWord_eq_some_iff nonempty] at found ⊢
  exact ⟨found.1.prefix_of_le isPrefix ends,
    fun j below occurs => found.2 j below (occurs.of_isPrefix isPrefix)⟩

/-- A prefix that ends before the first occurrence does finds nothing. -/
theorem findWord_prefix_of_lt {pattern short long : List α} (nonempty : pattern ≠ []) {i : Nat}
    (isPrefix : short <+: long) (cut : short.length < i + pattern.length)
    (found : findWord pattern long = some i) : findWord pattern short = none := by
  cases result : findWord pattern short with
  | none => rfl
  | some j =>
      have same : i = j :=
        Option.some.inj (found.symm.trans (findWord_of_isPrefix nonempty isPrefix result))
      subst same
      have ends := ((findWord_eq_some_iff nonempty).mp result).1.add_length_le nonempty
      omega

theorem findWord_lt {pattern word : List α} (nonempty : pattern ≠ []) {i : Nat}
    (found : findWord pattern word = some i) : i + pattern.length ≤ word.length :=
  ((findWord_eq_some_iff nonempty).mp found).1.add_length_le nonempty

/-- The word comes apart at the first occurrence, and what is before it has none. -/
theorem eq_append_of_findWord {pattern word : List α} (nonempty : pattern ≠ []) {i : Nat}
    (found : findWord pattern word = some i) :
    word = word.take i ++ pattern ++ word.drop (i + pattern.length) ∧
      ¬ pattern <:+: word.take i := by
  constructor
  · rcases ((findWord_eq_some_iff nonempty).mp found).1 with ⟨rest, whole⟩
    have dropped : word.drop (i + pattern.length) = rest := by
      rw [← List.drop_drop, ← whole, List.drop_left]
    rw [dropped, List.append_assoc, whole, List.take_append_drop]
  · have positive := List.length_pos_iff.mpr nonempty
    apply (findWord_eq_none_iff nonempty).mp
    apply findWord_prefix_of_lt nonempty (List.take_prefix i word) _ found
    rw [List.length_take]
    omega

/-! ## Patterns that do not overlap themselves -/

/-- No proper end of the pattern is a beginning of it. -/
def Unbordered (pattern : List α) : Prop :=
  ∀ k < pattern.length, 0 < k → ¬ pattern.drop k <+: pattern

omit [DecidableEq α] in
theorem not_occursAt_of_unbordered {pattern before rest : List α} (unbordered : Unbordered pattern)
    (absent : ¬ pattern <:+: before) {j : Nat} (below : j < before.length) :
    ¬ OccursAt pattern (before ++ pattern ++ rest) j := by
  intro occurs
  by_cases ends : j + pattern.length ≤ before.length
  · refine absent (OccursAt.isInfix (i := j) (occurs.prefix_of_le ?_ ends))
    rw [List.append_assoc]
    exact List.prefix_append _ _
  · have split : (before ++ pattern ++ rest).drop j = before.drop j ++ (pattern ++ rest) := by
      rw [List.append_assoc, List.drop_append_of_le_length (Nat.le_of_lt below)]
    have overlap : pattern.drop (before.length - j) <+: pattern ++ rest := by
      have shifted := List.IsPrefix.drop occurs (before.length - j)
      rwa [split, List.drop_left' (by rw [List.length_drop])] at shifted
    apply unbordered (before.length - j) (by omega) (by omega)
    apply List.prefix_of_prefix_length_le overlap (List.prefix_append _ _)
    rw [List.length_drop]
    exact Nat.sub_le _ _

/-- The first occurrence after a word that contains none is the one that was
put there. -/
theorem findWord_append_of_unbordered {pattern before : List α} (nonempty : pattern ≠ [])
    (unbordered : Unbordered pattern) (absent : ¬ pattern <:+: before) (rest : List α) :
    findWord pattern (before ++ pattern ++ rest) = some before.length := by
  rw [findWord_eq_some_iff nonempty]
  constructor
  · simp [OccursAt]
  · exact fun j below => not_occursAt_of_unbordered unbordered absent below

/-! ## Splitting at every occurrence -/

/-- Cut at every occurrence, scanning left to right and resuming after each
one.  The number of cuts is bounded by the fuel. -/
def splitFuel (separator : List α) : Nat → List α → List (List α)
  | 0, word => [word]
  | fuel + 1, word =>
      match findWord separator word with
      | none => [word]
      | some i => word.take i :: splitFuel separator fuel (word.drop (i + separator.length))

/-- The pieces between the occurrences of the separator. -/
def splitWord (separator word : List α) : List (List α) :=
  splitFuel separator word.length word

theorem splitFuel_eq {separator word : List α} (nonempty : separator ≠ [])
    {first second : Nat} (firstEnough : word.length ≤ first)
    (secondEnough : word.length ≤ second) :
    splitFuel separator first word = splitFuel separator second word := by
  induction first generalizing word second with
  | zero =>
      have empty : word = [] := List.length_eq_zero_iff.mp (Nat.le_zero.mp firstEnough)
      subst empty
      cases second <;> rfl
  | succ first ih =>
      cases second with
      | zero =>
          have empty : word = [] := List.length_eq_zero_iff.mp (Nat.le_zero.mp secondEnough)
          subst empty
          rfl
      | succ second =>
          simp only [splitFuel]
          cases found : findWord separator word with
          | none => rfl
          | some i =>
              have ends := findWord_lt nonempty found
              have positive := List.length_pos_iff.mpr nonempty
              have shorter : (word.drop (i + separator.length)).length < word.length := by
                rw [List.length_drop]
                omega
              simp only [List.cons.injEq, true_and]
              exact ih (by omega) (by omega)

theorem splitWord_of_none {separator word : List α}
    (absent : findWord separator word = none) : splitWord separator word = [word] := by
  unfold splitWord
  cases word.length <;> simp [splitFuel, absent]

theorem splitWord_of_some {separator word : List α} (nonempty : separator ≠ []) {i : Nat}
    (found : findWord separator word = some i) :
    splitWord separator word =
      word.take i :: splitWord separator (word.drop (i + separator.length)) := by
  have ends := findWord_lt nonempty found
  have positive := List.length_pos_iff.mpr nonempty
  obtain ⟨fuel, fuel_eq⟩ := Nat.exists_eq_succ_of_ne_zero (show word.length ≠ 0 by omega)
  have unfolded : splitWord separator word =
      word.take i :: splitFuel separator fuel (word.drop (i + separator.length)) := by
    simp [splitWord, fuel_eq, splitFuel, found]
  rw [unfolded]
  simp only [List.cons.injEq, true_and, splitWord]
  exact splitFuel_eq nonempty (by rw [List.length_drop]; omega) (Nat.le_refl _)

@[simp]
theorem splitWord_nil (separator : List α) : splitWord separator [] = [[]] :=
  rfl

/-- No piece contains the separator. -/
theorem not_infix_of_mem_splitWord {separator word piece : List α} (nonempty : separator ≠ [])
    (member : piece ∈ splitWord separator word) : ¬ separator <:+: piece := by
  induction size : word.length using Nat.strongRecOn generalizing word with
  | ind size ih =>
      cases found : findWord separator word with
      | none =>
          rw [splitWord_of_none found, List.mem_singleton] at member
          subst member
          exact (findWord_eq_none_iff nonempty).mp found
      | some i =>
          rw [splitWord_of_some nonempty found, List.mem_cons] at member
          have ends := findWord_lt nonempty found
          have positive := List.length_pos_iff.mpr nonempty
          rcases member with rfl | member
          · rw [← findWord_eq_none_iff nonempty]
            refine findWord_prefix_of_lt nonempty (List.take_prefix i word) ?_ found
            rw [List.length_take]
            omega
          · exact ih _ (by rw [List.length_drop]; omega) member rfl

omit [DecidableEq α] in
/-- Ended lines are the lines joined and one more end. -/
theorem flatMap_append_eq_intercalate (separator : List α) {lines : List (List α)}
    (nonempty : lines ≠ []) :
    lines.flatMap (· ++ separator) = separator.intercalate lines ++ separator := by
  induction lines with
  | nil => exact absurd rfl nonempty
  | cons line lines ih =>
      cases lines with
      | nil => simp
      | cons next lines =>
          rw [List.flatMap_cons, ih (by simp), List.intercalate_cons_cons]
          simp

/-! ## Two-letter separators

A line ends at two different letters, so an occurrence of the pair cannot
overlap the pair that ends the line. -/

section Pair

variable {a b : α}

omit [DecidableEq α] in
theorem unbordered_pair (different : a ≠ b) : Unbordered [a, b] := by
  intro k below positive
  obtain rfl : k = 1 := Nat.le_antisymm (Nat.le_of_lt_succ below) positive
  simp [List.cons_prefix_cons, Ne.symm different]

omit [DecidableEq α] in
/-- Appending letters other than the second one of the pair adds no pair. -/
theorem infix_pair_of_append {first second : List α} (absent : b ∉ second)
    (isInfix : [a, b] <:+: first ++ second) : [a, b] <:+: first := by
  induction first with
  | nil => exact absurd (isInfix.subset (by simp)) absent
  | cons letter first ih =>
      rcases List.infix_cons_iff.mp isInfix with here | later
      · obtain ⟨same, next⟩ := List.cons_prefix_cons.mp here
        subst same
        cases first with
        | nil => exact absurd (next.subset (by simp)) absent
        | cons second' first =>
            have next_eq := (List.cons_prefix_cons.mp next).1
            subst next_eq
            exact List.IsPrefix.isInfix ⟨first, rfl⟩
      · exact (ih later).trans (List.suffix_cons letter first).isInfix

omit [DecidableEq α] in
/-- Letters other than the first one of the pair add no pair in front. -/
theorem infix_pair_of_append_left {first second : List α} (absent : a ∉ first)
    (isInfix : [a, b] <:+: first ++ second) : [a, b] <:+: second := by
  induction first with
  | nil => exact isInfix
  | cons letter first ih =>
      rcases List.infix_cons_iff.mp isInfix with here | later
      · exact absurd (List.cons_prefix_cons.mp here).1 (List.ne_of_not_mem_cons absent)
      · exact ih (List.not_mem_of_not_mem_cons absent) later

omit [DecidableEq α] in
/-- A pair that stands around another letter stands on one side of it. -/
theorem infix_pair_append_cons {c : α} (notFirst : c ≠ a) (notSecond : c ≠ b)
    {first second : List α} (isInfix : [a, b] <:+: first ++ c :: second) :
    [a, b] <:+: first ∨ [a, b] <:+: second := by
  induction first with
  | nil =>
      rcases List.infix_cons_iff.mp isInfix with here | later
      · exact absurd (List.cons_prefix_cons.mp here).1.symm notFirst
      · exact Or.inr later
  | cons letter first ih =>
      rcases List.infix_cons_iff.mp isInfix with here | later
      · rcases List.cons_prefix_cons.mp here with ⟨rfl, next⟩
        cases first with
        | nil => exact absurd (List.cons_prefix_cons.mp next).1.symm notSecond
        | cons second' first =>
            rcases List.cons_prefix_cons.mp next with ⟨rfl, -⟩
            exact Or.inl (List.IsPrefix.isInfix ⟨first, rfl⟩)
      · rcases ih later with left | right
        · exact Or.inl (left.trans (List.suffix_cons letter first).isInfix)
        · exact Or.inr right

/-- The first pair after a line that contains none is the one that ends it. -/
theorem findWord_pair_line (different : a ≠ b) {line rest : List α}
    (absent : ¬ [a, b] <:+: line) :
    findWord [a, b] (line ++ [a, b] ++ rest) = some line.length := by
  exact findWord_append_of_unbordered (by simp) (unbordered_pair different) absent rest

/-- Splitting takes a line that contains no pair off the front. -/
theorem splitWord_pair_line (different : a ≠ b) {line rest : List α}
    (absent : ¬ [a, b] <:+: line) :
    splitWord [a, b] (line ++ [a, b] ++ rest) = line :: splitWord [a, b] rest := by
  rw [splitWord_of_some (by simp) (findWord_pair_line different absent)]
  simp

/-- A text assembled from ended lines comes apart into those lines. -/
theorem splitWord_pair_lines (different : a ≠ b) {lines : List (List α)} (rest : List α)
    (absent : ∀ line ∈ lines, ¬ [a, b] <:+: line) :
    splitWord [a, b] (lines.flatMap (· ++ [a, b]) ++ rest) =
      lines ++ splitWord [a, b] rest := by
  induction lines with
  | nil => simp
  | cons line lines ih =>
      rw [List.flatMap_cons, List.append_assoc,
        splitWord_pair_line different (absent line List.mem_cons_self),
        ih fun other member => absent other (List.mem_cons_of_mem line member)]
      rfl

/-- Lines joined by the pair come apart into those lines. -/
theorem splitWord_pair_intercalate (different : a ≠ b) {lines : List (List α)}
    (nonempty : lines ≠ []) (absent : ∀ line ∈ lines, ¬ [a, b] <:+: line) :
    splitWord [a, b] ([a, b].intercalate lines) = lines := by
  induction lines with
  | nil => exact absurd rfl nonempty
  | cons line lines ih =>
      have lineAbsent := absent line List.mem_cons_self
      cases lines with
      | nil =>
          rw [List.intercalate_singleton]
          exact splitWord_of_none ((findWord_eq_none_iff (by simp)).mpr lineAbsent)
      | cons next lines =>
          rw [List.intercalate_cons_cons, splitWord_pair_line different lineAbsent,
            ih (by simp) fun other member => absent other (List.mem_cons_of_mem line member)]

/-- The doubled pair is not found before the end of a line, and is found there
exactly when the next line is empty. -/
theorem findWord_doubled_line (different : a ≠ b) {line rest : List α}
    (absent : ¬ [a, b] <:+: line) :
    findWord [a, b, a, b] (line ++ [a, b] ++ rest) =
      if [a, b] <+: rest then some line.length
      else (findWord [a, b, a, b] rest).map (· + (line.length + 2)) := by
  have pairOfDoubled : ∀ {word : List α} {j : Nat},
      OccursAt [a, b, a, b] word j → OccursAt [a, b] word j := fun occurs =>
    List.IsPrefix.trans ⟨[a, b], rfl⟩ occurs
  have before : ∀ j < line.length, ¬ OccursAt [a, b, a, b] (line ++ [a, b] ++ rest) j :=
    fun j below occurs => not_occursAt_of_unbordered (unbordered_pair different) absent below
      (pairOfDoubled occurs)
  have atEnd : OccursAt [a, b, a, b] (line ++ [a, b] ++ rest) line.length ↔ [a, b] <+: rest := by
    simp [OccursAt, List.cons_prefix_cons]
  have between : ¬ OccursAt [a, b, a, b] (line ++ [a, b] ++ rest) (line.length + 1) := by
    rw [OccursAt, List.append_assoc, ← List.drop_drop]
    simp [List.cons_prefix_cons, different]
  have shifted : ∀ i, OccursAt [a, b, a, b] (line ++ [a, b] ++ rest) (i + (line.length + 2)) ↔
      OccursAt [a, b, a, b] rest i := by
    intro i
    have dropped : (line ++ [a, b] ++ rest).drop (i + (line.length + 2)) = rest.drop i := by
      rw [Nat.add_comm, ← List.drop_drop]
      congr 1
      simp
    rw [OccursAt, dropped, OccursAt]
  split
  · rename_i blank
    exact (findWord_eq_some_iff (by simp)).mpr ⟨atEnd.mpr blank, before⟩
  · rename_i text
    cases found : findWord [a, b, a, b] rest with
    | none =>
        rw [findWord_eq_none_iff (by simp)] at found
        rw [Option.map_none, findWord_eq_none_iff (by simp), isInfix_iff_exists_occursAt]
        rintro ⟨j, occurs⟩
        rcases Nat.lt_trichotomy j line.length with below | rfl | above
        · exact before j below occurs
        · exact text (atEnd.mp occurs)
        · by_cases next : j = line.length + 1
          · subst next
            exact between occurs
          · obtain ⟨i, rfl⟩ := Nat.exists_eq_add_of_le' (show line.length + 2 ≤ j by omega)
            exact found ((shifted i).mp occurs).isInfix
    | some i =>
        rw [findWord_eq_some_iff (by simp)] at found
        rw [Option.map_some, findWord_eq_some_iff (by simp)]
        refine ⟨(shifted i).mpr found.1, fun j below occurs => ?_⟩
        rcases Nat.lt_trichotomy j line.length with early | rfl | above
        · exact before j early occurs
        · exact text (atEnd.mp occurs)
        · by_cases next : j = line.length + 1
          · subst next
            exact between occurs
          · obtain ⟨k, rfl⟩ := Nat.exists_eq_add_of_le' (show line.length + 2 ≤ j by omega)
            exact found.2 k (by omega) ((shifted k).mp occurs)

/-- In a block of nonempty lines followed by an empty one, the doubled pair is
first found where the last line ends. -/
theorem findWord_doubled_block (different : a ≠ b) {lines : List (List α)} (rest : List α)
    (nonempty : lines ≠ []) (filled : ∀ line ∈ lines, line ≠ [])
    (absent : ∀ line ∈ lines, ¬ [a, b] <:+: line) :
    findWord [a, b, a, b] (lines.flatMap (· ++ [a, b]) ++ ([a, b] ++ rest)) =
      some ((lines.flatMap (· ++ [a, b])).length - 2) := by
  induction lines with
  | nil => exact absurd rfl nonempty
  | cons line lines ih =>
      rw [List.flatMap_cons, List.append_assoc,
        findWord_doubled_line different (absent line List.mem_cons_self)]
      cases lines with
      | nil =>
          rw [if_pos (by simp [List.cons_prefix_cons])]
          simp
      | cons next lines =>
          have nextAbsent := absent next (by simp)
          have text : ¬ [a, b] <+:
              (next :: lines).flatMap (· ++ [a, b]) ++ ([a, b] ++ rest) := by
            have never : ¬ OccursAt [a, b]
                (next ++ [a, b] ++ (lines.flatMap (· ++ [a, b]) ++ ([a, b] ++ rest))) 0 :=
              not_occursAt_of_unbordered (unbordered_pair different) nextAbsent
                (List.length_pos_iff.mpr (filled next (by simp)))
            simpa [occursAt_zero] using never
          rw [if_neg text, ih (by simp) (fun other member => filled other (by simp [member]))
            (fun other member => absent other (List.mem_cons_of_mem line member))]
          simp only [Option.map_some, List.flatMap_cons, List.length_append, List.length_cons,
            List.length_nil, Option.some.injEq]
          omega

end Pair

end Quackhole.Word
