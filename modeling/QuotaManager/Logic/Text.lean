import Mathlib.Data.List.Basic

/-! Texts as lists of letters. A text is split at the first occurrence of a word, and a
word is cut off its end. White space may take several letters each; trimming cuts
it off both ends, and what has none of it at its ends is what is left. -/

namespace Text
variable {α : Type} [BEq α]

/-- What comes before and after the first occurrence of a word. -/
def splitFirst (word : List α) : List α → Option (List α × List α)
  | [] => if word.isEmpty then some ([], []) else none
  | letter :: rest =>
    if word.isPrefixOf (letter :: rest) then some ([], (letter :: rest).drop word.length)
    else (splitFirst word rest).map fun (before, after) => (letter :: before, after)

def trimSuffix (word text : List α) : List α :=
  if word.isSuffixOf text then text.take (text.length - word.length) else text

variable [LawfulBEq α]

/-- A word whose first letter does not occur does not occur. -/
theorem splitFirst_none {first : α} {word text : List α} (absent : first ∉ text) : splitFirst (first :: word) text = none := by
  induction text with
  | nil => rfl
  | cons letter rest ih =>
    have other : ¬ (first :: word).isPrefixOf (letter :: rest) = true := by
      intro starts
      obtain ⟨same, -⟩ := List.cons_prefix_cons.mp (List.isPrefixOf_iff_prefix.mp starts)
      exact absent (same ▸ List.mem_cons_self)
    rw [splitFirst, if_neg other, ih fun later => absent (List.mem_cons_of_mem _ later)]
    rfl

theorem trimSuffix_append (word text : List α) : trimSuffix word (text ++ word) = text := by
  rw [trimSuffix, if_pos (List.isSuffixOf_iff_suffix.mpr (List.suffix_append text word)), List.length_append,
    Nat.add_sub_cancel, List.take_left']
  rfl

end Text

/-- The spellings of white space. None is empty, and none begins or ends with another. -/
structure Spaces (α : Type) where
  words : List (List α)
  nonempty : [] ∉ words
  apart : ∀ one ∈ words, ∀ two ∈ words, (one <+: two → one = two) ∧ (one <:+ two → one = two)

namespace Spaces
variable {α : Type}

/-- The same spaces, for texts that are read backwards. -/
def reversed (spaces : Spaces α) : Spaces α where
  words := spaces.words.map List.reverse
  nonempty := by
    intro inside
    obtain ⟨word, member, empty⟩ := List.mem_map.mp inside
    rw [List.reverse_eq_nil_iff] at empty
    exact spaces.nonempty (empty ▸ member)
  apart := by
    intro one first two second
    obtain ⟨one, member, rfl⟩ := List.mem_map.mp first
    obtain ⟨two, other, rfl⟩ := List.mem_map.mp second
    obtain ⟨starts, ends⟩ := spaces.apart one member two other
    rw [List.reverse_prefix, List.reverse_suffix, List.reverse_inj]
    exact ⟨ends, starts⟩

/-- A text of white space only. -/
inductive Blank (spaces : Spaces α) : List α → Prop where
  | nil : Blank spaces []
  | cons {word rest : List α} (member : word ∈ spaces.words) (blank : Blank spaces rest) : Blank spaces (word ++ rest)

/-- A text whose first and last letter are in no space at these ends. -/
structure Solid (spaces : Spaces α) (text : List α) : Prop where
  first : ∃ letter, text.head? = some letter ∧ ∀ word ∈ spaces.words, word.head? ≠ some letter
  last : ∃ letter, text.getLast? = some letter ∧ ∀ word ∈ spaces.words, word.getLast? ≠ some letter

theorem Blank.append {spaces : Spaces α} {left right : List α} (first : spaces.Blank left) (second : spaces.Blank right) :
    spaces.Blank (left ++ right) := by
  induction first with
  | nil => exact second
  | cons member _ ih =>
    rw [List.append_assoc]
    exact .cons member ih

theorem Blank.reverse {spaces : Spaces α} {left : List α} (blank : spaces.Blank left) : spaces.reversed.Blank left.reverse := by
  induction blank with
  | nil => exact .nil
  | cons member _ ih =>
    rw [List.reverse_append]
    have last := @Blank.cons α spaces.reversed _ _ (List.mem_map_of_mem member) .nil
    rw [List.append_nil] at last
    exact ih.append last

theorem reversed_reversed (spaces : Spaces α) : spaces.reversed.reversed = spaces := by
  obtain ⟨words, _, _⟩ := spaces
  simp [reversed]

variable [DecidableEq α]

/-- Cuts one space off the front. -/
def cut (spaces : Spaces α) (text : List α) : Option (List α) :=
  (spaces.words.find? fun word => word.isPrefixOf text).map fun word => text.drop word.length

/-- Cuts off what is blank at the front; a text has no more spaces than letters. -/
def trimStart (spaces : Spaces α) (text : List α) : List α := go text.length text
where
  go : Nat → List α → List α
    | 0, text => text
    | count + 1, text =>
      match spaces.cut text with
      | none => text
      | some rest => go count rest

def trim (spaces : Spaces α) (text : List α) : List α :=
  (spaces.reversed.trimStart (spaces.trimStart text).reverse).reverse

variable {spaces : Spaces α} {text rest core : List α}

theorem cut_spec (found : spaces.cut text = some rest) : ∃ word ∈ spaces.words, text = word ++ rest := by
  obtain ⟨word, first, rfl⟩ := Option.map_eq_some_iff.mp found
  have starts : word.isPrefixOf text = true := List.find?_some (p := fun word : List α => word.isPrefixOf text) first
  have split := List.prefix_iff_eq_append.mp (List.isPrefixOf_iff_prefix.mp starts)
  exact ⟨word, List.mem_of_find?_eq_some first, split.symm⟩

theorem cut_none (bare : ∀ word ∈ spaces.words, ¬ word <+: text) : spaces.cut text = none := by
  apply Option.map_eq_none_iff.mpr
  apply List.find?_eq_none.mpr
  intro word member starts
  exact bare word member (List.isPrefixOf_iff_prefix.mp starts)

theorem cut_cons {word : List α} (member : word ∈ spaces.words) : spaces.cut (word ++ rest) = some rest := by
  cases found : spaces.cut (word ++ rest) with
  | none =>
    have absent := List.find?_eq_none.mp (Option.map_eq_none_iff.mp found) word member
    exact absurd (List.isPrefixOf_iff_prefix.mpr (List.prefix_append word rest)) absent
  | some other =>
    obtain ⟨first, inside, split⟩ := cut_spec found
    have same : first = word := by
      rcases List.prefix_or_prefix_of_prefix (split ▸ List.prefix_append first other) (List.prefix_append word rest) with
        starts | starts
      · exact (spaces.apart first inside word member).1 starts
      · exact ((spaces.apart word member first inside).1 starts).symm
    rw [same] at split
    rw [List.append_cancel_left split]

/-- What is cut off the front is blank. -/
theorem trimStart_split (text : List α) : ∃ left, spaces.Blank left ∧ text = left ++ spaces.trimStart text := by
  unfold trimStart
  generalize text.length = count
  induction count generalizing text with
  | zero => exact ⟨[], .nil, rfl⟩
  | succ count ih =>
    unfold trimStart.go
    cases found : spaces.cut text with
    | none => exact ⟨[], .nil, rfl⟩
    | some rest =>
      obtain ⟨word, member, rfl⟩ := cut_spec found
      obtain ⟨left, blank, split⟩ := ih rest
      refine ⟨word ++ left, .cons member blank, ?_⟩
      rw [List.append_assoc]
      exact congrArg (word ++ ·) split

/-- All that is blank at the front is cut off. -/
theorem trimStart_blank {left : List α} (blank : spaces.Blank left) (bare : ∀ word ∈ spaces.words, ¬ word <+: core) :
    spaces.trimStart (left ++ core) = core := by
  suffices general : ∀ count, left.length ≤ count → trimStart.go spaces count (left ++ core) = core from
    general _ (by rw [List.length_append]; omega)
  induction blank with
  | nil =>
    intro count _
    cases count with
    | zero => rfl
    | succ count =>
      unfold trimStart.go
      rw [List.nil_append, cut_none bare]
  | cons member _ ih =>
    intro count enough
    rw [List.length_append] at enough
    have something : _ ≠ 0 := fun empty => spaces.nonempty (List.length_eq_zero_iff.mp empty ▸ member)
    cases count with
    | zero => omega
    | succ count =>
      unfold trimStart.go
      rw [List.append_assoc, cut_cons member]
      exact ih count (by omega)

/-- Trimming only cuts off white space. -/
theorem trim_split (text : List α) :
    ∃ left right, spaces.Blank left ∧ spaces.Blank right ∧ text = left ++ (spaces.trim text ++ right) := by
  obtain ⟨left, blank, split⟩ := spaces.trimStart_split text
  obtain ⟨right, ending, rest⟩ := spaces.reversed.trimStart_split (spaces.trimStart text).reverse
  refine ⟨left, right.reverse, blank, ?_, ?_⟩
  · have back := ending.reverse
    rwa [reversed_reversed] at back
  · have whole := congrArg List.reverse rest
    rw [List.reverse_reverse, List.reverse_append] at whole
    rw [trim, ← whole]
    exact split

omit [DecidableEq α] in
/-- A space that begins like the text would begin with its first letter. -/
theorem bare_of_first {letter : α} (first : text.head? = some letter) (foreign : ∀ word ∈ spaces.words, word.head? ≠ some letter)
    (more : List α) : ∀ word ∈ spaces.words, ¬ word <+: text ++ more := by
  rintro word member ⟨after, split⟩
  cases word with
  | nil => exact spaces.nonempty member
  | cons head tail =>
    cases text with
    | nil => cases first
    | cons initial others =>
      obtain ⟨same, -⟩ := List.cons.inj split
      apply foreign _ member
      rw [List.head?_cons, same]
      exact first

/-- What is solid between white space is what trimming leaves. -/
theorem trim_solid {left right : List α} (before : spaces.Blank left) (after : spaces.Blank right) (solid : spaces.Solid core) :
    spaces.trim (left ++ (core ++ right)) = core := by
  obtain ⟨⟨letter, first, foreign⟩, ⟨final, last, strange⟩⟩ := solid
  have front := trimStart_blank before (bare_of_first first foreign right)
  have bare : ∀ word ∈ spaces.reversed.words, ¬ word <+: core.reverse ++ [] := by
    apply bare_of_first (List.head?_reverse.trans last)
    intro word member
    obtain ⟨word, inside, rfl⟩ := List.mem_map.mp member
    rw [List.head?_reverse]
    exact strange word inside
  rw [List.append_nil] at bare
  rw [trim, front, List.reverse_append, trimStart_blank after.reverse bare, List.reverse_reverse]

end Spaces
