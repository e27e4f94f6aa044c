import Quackhole.Word.Text

/-!
# Lower case

Rust and JavaScript put a text in lower case in the same way, which is Unicode's: each character
for itself, but for the capital sigma, which is written otherwise where it ends a word.  The
tables are Unicode's.  Of those it matters that what they call a lower case has no other one, and
that what is ASCII in it is a letter.
-/

namespace Quackhole.Word

/-- `Σ`. -/
def capitalSigma : Char :=
  Char.ofNat 0x3A3

/-- `σ`. -/
def smallSigma : Char :=
  Char.ofNat 0x3C3

/-- `ς`. -/
def finalSigma : Char :=
  Char.ofNat 0x3C2

/-- Unicode's tables, past ASCII. -/
structure CaseMapping where
  /-- The lower case of a character by itself. -/
  mapping : Char → Text
  /-- `Cased`. -/
  cased : Char → Bool
  /-- `Case_Ignorable`. -/
  ignorable : Char → Bool
  mapping_ne_nil : ∀ c, mapping c ≠ []
  isLetter : ∀ c, 128 ≤ c.toNat → ∀ d ∈ mapping c, d.toNat < 128 →
    97 ≤ d.toNat ∧ d.toNat ≤ 122
  isLower : ∀ c, 128 ≤ c.toNat → ∀ d ∈ mapping c, 128 ≤ d.toNat →
    d ≠ capitalSigma ∧ mapping d = [d]
  mapping_smallSigma : mapping smallSigma = [smallSigma]
  mapping_finalSigma : mapping finalSigma = [finalSigma]

namespace CaseMapping

variable (case : CaseMapping)

/-- The lower case of a character by itself. -/
def letter (c : Char) : Text :=
  if c.toNat < 128 then [c.toLower] else case.mapping c

/-- Past what is ignored there is a cased character. -/
def meetsCased (text : Text) : Bool :=
  ((text.dropWhile case.ignorable).head?.map case.cased).getD false

/-- The lower case of a character between others.  Those before it are listed from the last one
to the first. -/
def lowerAt (before : Text) (c : Char) (after : Text) : Text :=
  if c = capitalSigma then
    [if case.meetsCased before && !case.meetsCased after then finalSigma else smallSigma]
  else case.letter c

/-- The lower case of what comes after some characters. -/
def lowerFrom : Text → Text → Text
  | _, [] => []
  | before, c :: after => case.lowerAt before c after ++ lowerFrom (c :: before) after

/-- The lower case of a text. -/
def lower (text : Text) : Text :=
  case.lowerFrom [] text

/-! ## What is in lower case stays -/

/-- The character is its own lower case. -/
def IsLower (c : Char) : Prop :=
  c ≠ capitalSigma ∧ case.letter c = [c]

theorem isLower_of_toLower {c : Char} (ascii : c.toNat < 128) (same : c.toLower = c) :
    case.IsLower c := by
  constructor
  · rintro rfl
    exact absurd ascii (by decide)
  · rw [letter, if_pos ascii, same]

theorem isLower_smallSigma : case.IsLower smallSigma :=
  ⟨by decide, case.mapping_smallSigma⟩

theorem isLower_finalSigma : case.IsLower finalSigma :=
  ⟨by decide, case.mapping_finalSigma⟩

theorem isLower_of_mem_letter {c d : Char} (member : d ∈ case.letter c) : case.IsLower d := by
  rw [letter] at member
  split at member
  · rename_i ascii
    obtain rfl := List.mem_singleton.mp member
    have lowered := toNat_toLower c
    apply case.isLower_of_toLower
    · split_ifs at lowered <;> omega
    · apply toLower_eq_self
      split_ifs at lowered <;> omega
  · rename_i past
    have beyond : 128 ≤ c.toNat := Nat.le_of_not_lt past
    by_cases ascii : d.toNat < 128
    · have small := case.isLetter c beyond d member ascii
      exact case.isLower_of_toLower ascii (toLower_eq_self (by omega))
    · have kept := case.isLower c beyond d member (Nat.le_of_not_lt ascii)
      exact ⟨kept.1, (if_neg ascii).trans kept.2⟩

theorem isLower_of_mem_lowerAt {before after : Text} {c d : Char}
    (member : d ∈ case.lowerAt before c after) : case.IsLower d := by
  rw [lowerAt] at member
  split at member
  · rw [List.mem_singleton] at member
    split at member <;> subst member
    · exact case.isLower_finalSigma
    · exact case.isLower_smallSigma
  · exact case.isLower_of_mem_letter member

theorem isLower_of_mem_lowerFrom {before text : Text} {d : Char}
    (member : d ∈ case.lowerFrom before text) : case.IsLower d := by
  induction text generalizing before with
  | nil => cases member
  | cons c text ih =>
      rcases List.mem_append.mp member with here | later
      · exact case.isLower_of_mem_lowerAt here
      · exact ih later

theorem lowerFrom_eq_self {before text : Text} (isLower : ∀ c ∈ text, case.IsLower c) :
    case.lowerFrom before text = text := by
  induction text generalizing before with
  | nil => rfl
  | cons c text ih =>
      have first := isLower c List.mem_cons_self
      have rest := fun d member => isLower d (List.mem_cons_of_mem c member)
      rw [lowerFrom, lowerAt, if_neg first.1, first.2, ih rest]
      rfl

theorem idempotent (text : Text) : case.lower (case.lower text) = case.lower text :=
  case.lowerFrom_eq_self fun _ member => case.isLower_of_mem_lowerFrom member

/-! ## Where a character comes from -/

section Ascii

variable {d : Char} (ascii : d.toNat < 128) (noLetter : ¬ (97 ≤ d.toNat ∧ d.toNat ≤ 122))

include ascii noLetter

/-- An ASCII character that is no letter was there before. -/
theorem eq_of_mem_lowerAt {before after : Text} {c : Char}
    (member : d ∈ case.lowerAt before c after) :
    c = d ∧ case.lowerAt before c after = [d] := by
  rw [lowerAt] at member ⊢
  split at member
  · rw [List.mem_singleton] at member
    split at member <;> subst member <;> exact absurd ascii (by decide)
  · rename_i other
    rw [if_neg other]
    rw [letter] at member ⊢
    split at member
    · rename_i small
      have lowered := (List.mem_singleton.mp member).symm
      rw [if_pos small, lowered]
      exact ⟨eq_of_toLower noLetter lowered, rfl⟩
    · rename_i past
      exact absurd (case.isLetter c (Nat.le_of_not_lt past) d member ascii) noLetter

theorem mem_of_mem_lowerFrom {before text : Text} (member : d ∈ case.lowerFrom before text) :
    d ∈ text := by
  induction text generalizing before with
  | nil => cases member
  | cons c text ih =>
      rcases List.mem_append.mp member with here | later
      · obtain rfl := (case.eq_of_mem_lowerAt ascii noLetter here).1
        exact List.mem_cons_self
      · exact List.mem_cons_of_mem c (ih later)

theorem mem_of_mem_lower {text : Text} (member : d ∈ case.lower text) : d ∈ text :=
  case.mem_of_mem_lowerFrom ascii noLetter member

end Ascii

theorem mem_lowerFrom {before text : Text} {d : Char} (isLower : case.IsLower d)
    (member : d ∈ text) : d ∈ case.lowerFrom before text := by
  induction text generalizing before with
  | nil => cases member
  | cons c text ih =>
      rw [lowerFrom, List.mem_append]
      rcases List.mem_cons.mp member with rfl | later
      · left
        rw [lowerAt, if_neg isLower.1, isLower.2]
        exact List.mem_cons_self
      · exact .inr (ih later)

theorem lowerAt_ne_nil (before : Text) (c : Char) (after : Text) :
    case.lowerAt before c after ≠ [] := by
  rw [lowerAt]
  split
  · exact List.cons_ne_nil _ _
  · rw [letter]
    split
    · exact List.cons_ne_nil _ _
    · exact case.mapping_ne_nil c

/-- The first character, if it is ASCII and no letter, was the first one before. -/
theorem prefix_of_prefix_lowerFrom {before text : Text} {d : Char} (ascii : d.toNat < 128)
    (noLetter : ¬ (97 ≤ d.toNat ∧ d.toNat ≤ 122)) (first : [d] <+: case.lowerFrom before text) :
    [d] <+: text := by
  cases text with
  | nil => exact absurd (List.prefix_nil.mp first) (List.cons_ne_nil d [])
  | cons c text =>
      obtain ⟨e, more, written⟩ := List.exists_cons_of_ne_nil (case.lowerAt_ne_nil before c text)
      have same : d = e := by
        rw [lowerFrom, written, List.cons_append] at first
        exact (List.cons_prefix_cons.mp first).1
      have here : d ∈ case.lowerAt before c text := by
        rw [written, same]
        exact List.mem_cons_self
      obtain rfl := (case.eq_of_mem_lowerAt ascii noLetter here).1
      exact List.prefix_append [c] text

/-- Two ASCII characters that are no letters were next to each other before. -/
theorem infix_of_infix_lowerFrom {d e : Char} (ascii : d.toNat < 128)
    (noLetter : ¬ (97 ≤ d.toNat ∧ d.toNat ≤ 122)) (nextAscii : e.toNat < 128)
    (nextNoLetter : ¬ (97 ≤ e.toNat ∧ e.toNat ≤ 122)) {before text : Text}
    (inside : [d, e] <:+: case.lowerFrom before text) : [d, e] <:+: text := by
  induction text generalizing before with
  | nil => exact absurd (List.infix_nil.mp inside) (List.cons_ne_nil d [e])
  | cons c text ih =>
      -- what stands for one character holds no two of these
      have alone {part : Text} (begins : d ∈ part)
          (isInfix : part <:+: case.lowerAt before c text) : c = d ∧ part.length ≤ 1 := by
        obtain ⟨same, single⟩ :=
          case.eq_of_mem_lowerAt ascii noLetter (isInfix.subset begins)
        have short := isInfix.length_le
        rw [single] at short
        exact ⟨same, short⟩
      rcases List.infix_append_iff.mp inside with here | later | ⟨front, back, split, ends, begins⟩
      · exact absurd (alone List.mem_cons_self here).2 (by simp)
      · exact List.infix_cons (ih later)
      · rcases List.cons_eq_append_iff.mp split with ⟨rfl, rfl⟩ | ⟨front, rfl, split⟩
        · exact List.infix_cons (ih begins.isInfix)
        · obtain ⟨rfl, short⟩ := alone List.mem_cons_self ends.isInfix
          obtain rfl : front = [] :=
            List.eq_nil_of_length_eq_zero (Nat.le_zero.mp (Nat.le_of_succ_le_succ short))
          obtain rfl : [e] = back := (List.cons.inj split).2
          have next := case.prefix_of_prefix_lowerFrom nextAscii nextNoLetter begins
          exact (List.cons_prefix_cons.mpr ⟨rfl, next⟩).isInfix

/-- Tables that know of no other letters. -/
def ascii : CaseMapping where
  mapping c := if c = capitalSigma then [smallSigma] else [c]
  cased := Char.isAlpha
  ignorable _ := false
  mapping_ne_nil c := by
    split <;> exact List.cons_ne_nil _ _
  isLetter c past d member ascii := by
    split at member <;> obtain rfl := List.mem_singleton.mp member
    · exact absurd ascii (by decide)
    · omega
  isLower c past d member beyond := by
    split at member <;> obtain rfl := List.mem_singleton.mp member
    · decide
    · rename_i other
      exact ⟨other, if_neg other⟩
  mapping_smallSigma := by decide
  mapping_finalSigma := by decide

end CaseMapping

end Quackhole.Word
