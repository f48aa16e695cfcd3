import Mathlib.Data.List.TakeWhile
import Mathlib.Data.Nat.Digits.Defs
import QuotaManager.Cgroup

/-! Which processes are signalled for a file of process identifiers. Every line that is
an integer between white space is taken for one, also where it is not positive. -/

namespace QuotaManager

def spell (digits : List Nat) : List UInt8 := digits.map fun digit => .ofNat (48 + digit)

def withSign (negative : Bool) (value : Nat) : Int := if negative then -value else value

/-- The usual meaning of decimal digits. -/
def Numeral (negative : Bool) (text : List UInt8) (number : Int) : Prop :=
  ∃ digits : List Nat, digits ≠ [] ∧ (∀ digit ∈ digits, digit < 10) ∧ text = spell digits ∧
    number = withSign negative (Nat.ofDigits 10 digits.reverse)

inductive Decimal : List UInt8 → Int → Prop where
  | plain {text : List UInt8} {number : Int} (numeral : Numeral false text number) : Decimal text number
  | plus {text : List UInt8} {number : Int} (numeral : Numeral false text number) : Decimal (43 :: text) number
  | minus {text : List UInt8} {number : Int} (numeral : Numeral true text number) : Decimal (45 :: text) number

/-- The line is a decimal number between white space, and the number fits an `int`. -/
def Denotes (line : List UInt8) (number : Int) : Prop :=
  (-2 ^ 63 ≤ number ∧ number < 2 ^ 63) ∧ ∃ left text right, unicodeSpaces.Blank left ∧ unicodeSpaces.Blank right ∧
    line = left ++ (text ++ right) ∧ Decimal text number

/-- The targets are the positive numbers among the lines, in their order. -/
inductive Listed : List (List UInt8) → List Int → Prop where
  | nil : Listed [] []
  | pid {line : List UInt8} {lines : List (List UInt8)} {number : Int} {targets : List Int} (denotes : Denotes line number)
    (positive : 0 < number) (rest : Listed lines targets) : Listed (line :: lines) (number :: targets)
  | other {line : List UInt8} {lines : List (List UInt8)} {targets : List Int}
    (none : ∀ number, Denotes line number → ¬ 0 < number) (rest : Listed lines targets) : Listed (line :: lines) targets

theorem digit_spelled {value : Nat} (small : value < 10) : digit (.ofNat (48 + value)) = some value := by
  have digits : ∀ value < 10, digit (.ofNat (48 + value)) = some value := by decide
  exact digits value small

theorem digit_spec {byte : UInt8} {value : Nat} (read : digit byte = some value) : value < 10 ∧ byte = .ofNat (48 + value) := by
  unfold digit at read
  split at read
  next bounds =>
    obtain rfl := Option.some.inj read
    have low := UInt8.le_iff_toNat_le.mp bounds.1
    have high := UInt8.le_iff_toNat_le.mp bounds.2
    have lower : (48 : UInt8).toNat = 48 := rfl
    have upper : (57 : UInt8).toNat = 57 := rfl
    refine ⟨by omega, ?_⟩
    apply UInt8.toNat_inj.mp
    rw [UInt8.toNat_ofNat']
    have := byte.toNat_lt
    omega
  · cases read

theorem ofDigits_carry (digits : List Nat) (start next : Nat) :
    Nat.ofDigits 10 ((start * 10 + next) :: digits).reverse = Nat.ofDigits 10 (start :: next :: digits).reverse := by
  simp only [List.reverse_cons, List.append_assoc, List.cons_append, List.nil_append, Nat.ofDigits_append, Nat.ofDigits_cons,
    Nat.ofDigits_nil, Nat.mul_zero, Nat.add_zero]
  rw [Nat.add_comm next, Nat.mul_comm start 10]

/-- Reading digits goes on with the value so far. -/
theorem natural_iff {text : List UInt8} {start value : Nat} : natural text start = some value ↔
    ∃ digits : List Nat, (∀ digit ∈ digits, digit < 10) ∧ text = spell digits ∧
      value = Nat.ofDigits 10 (start :: digits).reverse := by
  induction text generalizing start with
  | nil =>
    constructor
    · intro read
      obtain rfl := Option.some.inj read
      exact ⟨[], fun _ impossible => absurd impossible List.not_mem_nil, rfl, Nat.ofDigits_singleton.symm⟩
    · rintro ⟨digits, _, empty, rfl⟩
      obtain rfl := List.map_eq_nil_iff.mp empty.symm
      exact congrArg some Nat.ofDigits_singleton.symm
  | cons byte rest ih =>
    constructor
    · intro read
      unfold natural at read
      split at read
      · cases read
      next next found =>
        obtain ⟨small, rfl⟩ := digit_spec found
        obtain ⟨digits, others, rfl, rfl⟩ := ih.mp read
        refine ⟨next :: digits, ?_, rfl, ofDigits_carry digits start next⟩
        intro digit member
        rcases List.mem_cons.mp member with rfl | later
        · exact small
        · exact others digit later
    · rintro ⟨digits, small, spelled, rfl⟩
      cases digits with
      | nil => cases spelled
      | cons next digits =>
        obtain ⟨rfl, rfl⟩ := List.cons.inj spelled
        unfold natural
        rw [digit_spelled (small next List.mem_cons_self)]
        apply ih.mpr
        refine ⟨digits, fun digit member => ?_, rfl, (ofDigits_carry digits start next).symm⟩
        exact small digit (List.mem_cons_of_mem _ member)

theorem natural_zero_iff {text : List UInt8} {value : Nat} : natural text 0 = some value ↔
    ∃ digits : List Nat, (∀ digit ∈ digits, digit < 10) ∧ text = spell digits ∧ value = Nat.ofDigits 10 digits.reverse := by
  have leading (digits : List Nat) : Nat.ofDigits 10 (0 :: digits).reverse = Nat.ofDigits 10 digits.reverse := by
    rw [List.reverse_cons, Nat.ofDigits_append, Nat.ofDigits_singleton, Nat.mul_zero, Nat.add_zero]
  rw [natural_iff]
  simp only [leading]

theorem signed_iff {negative : Bool} {text : List UInt8} {number : Int} : signed negative text = some number ↔
    (-2 ^ 63 ≤ number ∧ number < 2 ^ 63) ∧ Numeral negative text number := by
  constructor
  · intro read
    unfold signed at read
    split at read
    · cases read
    next something =>
      split at read
      · cases read
      next value found =>
        obtain ⟨digits, small, spelled, valued⟩ := natural_zero_iff.mp found
        change (if -2 ^ 63 ≤ withSign negative value ∧ withSign negative value < 2 ^ 63 then _ else _) = _ at read
        by_cases fits : -2 ^ 63 ≤ withSign negative value ∧ withSign negative value < 2 ^ 63
        · rw [if_pos fits] at read
          have same : withSign negative value = number := Option.some.inj read
          rw [same] at fits
          refine ⟨fits, digits, ?_, small, spelled, valued ▸ same.symm⟩
          rintro rfl
          exact something spelled
        · rw [if_neg fits] at read
          cases read
  · rintro ⟨fits, digits, something, small, spelled, valued⟩
    have found := natural_zero_iff.mpr ⟨digits, small, spelled, rfl⟩
    have nonempty : text ≠ [] := fun empty => something (List.map_eq_nil_iff.mp (spelled.symm.trans empty))
    unfold signed
    rw [if_neg nonempty, found]
    change (if -2 ^ 63 ≤ withSign negative _ ∧ withSign negative _ < 2 ^ 63 then some (withSign negative _) else _) = _
    rw [← valued, if_pos fits]

/-- A numeral begins and ends with a digit. -/
theorem Numeral.ends {negative : Bool} {text : List UInt8} {number : Int} (numeral : Numeral negative text number) :
    (∃ byte, text.head? = some byte ∧ 48 ≤ byte ∧ byte ≤ 57) ∧ ∃ byte, text.getLast? = some byte ∧ 48 ≤ byte ∧ byte ≤ 57 := by
  obtain ⟨digits, something, small, rfl, -⟩ := numeral
  have spelled : ∀ value < 10, (48 : UInt8) ≤ .ofNat (48 + value) ∧ UInt8.ofNat (48 + value) ≤ 57 := by decide
  constructor
  · obtain ⟨first, rest, rfl⟩ := List.exists_cons_of_ne_nil something
    exact ⟨_, rfl, spelled first (small first List.mem_cons_self)⟩
  · refine ⟨.ofNat (48 + digits.getLast something), ?_, spelled _ (small _ (List.getLast_mem something))⟩
    rw [spell, List.getLast?_map, List.getLast?_eq_some_getLast something]
    rfl

theorem Numeral.unsigned {negative : Bool} {sign : UInt8} {rest : List UInt8} {number : Int} (low : sign < 48) :
    ¬ Numeral negative (sign :: rest) number := by
  intro numeral
  obtain ⟨⟨byte, first, high, -⟩, -⟩ := numeral.ends
  obtain rfl : sign = byte := Option.some.inj first
  exact absurd low (UInt8.not_lt.mpr high)

/-- Before a numeral only a sign may stand. -/
theorem Decimal.signed {sign : UInt8} {rest : List UInt8} {number : Int} (low : sign < 48) (decimal : Decimal (sign :: rest) number) :
    (sign = 43 ∧ Numeral false rest number) ∨ (sign = 45 ∧ Numeral true rest number) := by
  generalize shape : sign :: rest = text at decimal
  cases decimal with
  | plain numeral =>
    subst shape
    exact absurd numeral (Numeral.unsigned low)
  | plus numeral =>
    obtain ⟨rfl, rfl⟩ := List.cons.inj shape
    exact .inl ⟨rfl, numeral⟩
  | minus numeral =>
    obtain ⟨rfl, rfl⟩ := List.cons.inj shape
    exact .inr ⟨rfl, numeral⟩

/-- `Atoi` accepts the decimal numbers that fit. -/
theorem atoi_iff {text : List UInt8} {number : Int} :
    atoi text = some number ↔ (-2 ^ 63 ≤ number ∧ number < 2 ^ 63) ∧ Decimal text number := by
  unfold atoi
  split
  next rest =>
    rw [signed_iff]
    apply and_congr_right
    intro _
    constructor
    · exact .plus
    · intro decimal
      rcases decimal.signed (by decide) with ⟨-, numeral⟩ | ⟨other, -⟩
      · exact numeral
      · exact absurd other (by decide)
  next rest =>
    rw [signed_iff]
    apply and_congr_right
    intro _
    constructor
    · exact .minus
    · intro decimal
      rcases decimal.signed (by decide) with ⟨other, -⟩ | ⟨-, numeral⟩
      · exact absurd other (by decide)
      · exact numeral
  next positive negative =>
    rw [signed_iff]
    apply and_congr_right
    intro _
    constructor
    · exact .plain
    · intro decimal
      cases decimal with
      | plain numeral => exact numeral
      | plus numeral => exact absurd rfl (positive _)
      | minus numeral => exact absurd rfl (negative _)

/-- Neither digits nor signs occur at the ends of white space. -/
theorem spaces_foreign {byte : UInt8} (low : 43 ≤ byte) (high : byte ≤ 57) : ∀ word ∈ unicodeSpaces.words,
    word.head? ≠ some byte ∧ word.getLast? ≠ some byte := by
  have outside : ∀ word ∈ unicodeSpaces.words, (∀ byte ∈ word.head?, byte < 43 ∨ 57 < byte) ∧
      ∀ byte ∈ word.getLast?, byte < 43 ∨ 57 < byte := by decide +kernel
  have inside : ¬ (byte < 43 ∨ 57 < byte) := by
    rintro (below | above)
    · exact absurd below (UInt8.not_lt.mpr low)
    · exact absurd above (UInt8.not_lt.mpr high)
  intro word member
  obtain ⟨first, last⟩ := outside word member
  exact ⟨fun same => inside (first byte same), fun same => inside (last byte same)⟩

/-- A decimal number has no white space at its ends. -/
theorem Decimal.solid {text : List UInt8} {number : Int} (decimal : Decimal text number) : unicodeSpaces.Solid text := by
  have digitEnds {negative : Bool} {text : List UInt8} {number : Int} (numeral : Numeral negative text number) :
      (∃ byte, text.head? = some byte ∧ 43 ≤ byte ∧ byte ≤ 57) ∧
        ∃ byte, text.getLast? = some byte ∧ 43 ≤ byte ∧ byte ≤ 57 := by
    obtain ⟨⟨first, begins, low, high⟩, ⟨last, finishes, lower, higher⟩⟩ := numeral.ends
    exact ⟨⟨first, begins, UInt8.le_trans (by decide) low, high⟩,
      ⟨last, finishes, UInt8.le_trans (by decide) lower, higher⟩⟩
  have ends : (∃ byte, text.head? = some byte ∧ 43 ≤ byte ∧ byte ≤ 57) ∧
      ∃ byte, text.getLast? = some byte ∧ 43 ≤ byte ∧ byte ≤ 57 := by
    cases decimal with
    | plain numeral => exact digitEnds numeral
    | plus numeral | minus numeral =>
      obtain ⟨last, finishes, bounds⟩ := (digitEnds numeral).2
      refine ⟨⟨_, rfl, by decide, by decide⟩, ⟨last, ?_, bounds⟩⟩
      rw [List.getLast?_cons, finishes, Option.getD_some]
  obtain ⟨⟨first, begins, low, high⟩, ⟨last, finishes, lower, higher⟩⟩ := ends
  exact ⟨⟨first, begins, fun word member => (spaces_foreign low high word member).1⟩,
    ⟨last, finishes, fun word member => (spaces_foreign lower higher word member).2⟩⟩

/-- What a line is taken for. -/
def parsed (line : List UInt8) : Option Int := atoi (trimSpace line)

theorem parsed_iff {line : List UInt8} {number : Int} : parsed line = some number ↔ Denotes line number := by
  rw [parsed, atoi_iff]
  apply and_congr_right
  intro _
  constructor
  · intro decimal
    obtain ⟨left, right, before, after, split⟩ := unicodeSpaces.trim_split line
    exact ⟨left, _, right, before, after, split, decimal⟩
  · rintro ⟨left, text, right, before, after, rfl, decimal⟩
    rwa [trimSpace, Spaces.trim_solid before after decimal.solid]

/-- The lines of a file as the scanner returns them. -/
def scanned (content : List UInt8) : List (List UInt8) := (splitLines content).map dropCR

/-- Every line is shorter than the scanner's limit. -/
def Scannable (content : List UInt8) : Prop := ∀ line ∈ splitLines content, line.length < maxScanTokenSize

theorem killed_eq {content : List UInt8} (short : Scannable content) :
    killCgroupProcs (some content) = ((scanned content).filterMap parsed, none) := by
  have fits : ∀ line ∈ splitLines content, decide (line.length < maxScanTokenSize) = true :=
    fun line member => decide_eq_true (short line member)
  have blank (line : List UInt8) : (if trimSpace line = [] then none else atoi (trimSpace line)) = parsed line := by
    unfold parsed
    split
    next empty => rw [empty]; rfl
    · rfl
  have whole := List.takeWhile_eq_self_iff.mpr fits
  simp only [killCgroupProcs, whole, List.all_eq_true.mpr fits, ↓reduceIte, blank]
  rw [scanned, List.filterMap_map]
  rfl

theorem listed_iff {lines : List (List UInt8)} {targets : List Int} :
    Listed lines targets ↔ targets = (lines.filterMap parsed).filter (0 < ·) := by
  constructor
  · intro listed
    induction listed with
    | nil => rfl
    | pid denotes positive _ ih =>
      rw [List.filterMap_cons_some (parsed_iff.mpr denotes), List.filter_cons, if_pos (decide_eq_true positive), ← ih]
    | @other line _ _ none _ ih =>
      cases found : parsed line with
      | none => rw [List.filterMap_cons_none found, ih]
      | some number =>
        have idle := none number (parsed_iff.mp found)
        rw [List.filterMap_cons_some found, List.filter_cons, if_neg (by simpa using idle), ih]
  · rintro rfl
    induction lines with
    | nil => exact .nil
    | cons line rest ih =>
      cases found : parsed line with
      | none =>
        rw [List.filterMap_cons_none found]
        refine .other (fun number denotes _ => ?_) ih
        cases found.symm.trans (parsed_iff.mpr denotes)
      | some number =>
        rw [List.filterMap_cons_some found]
        by_cases positive : 0 < number
        · rw [List.filter_cons, if_pos (decide_eq_true positive)]
          exact .pid (parsed_iff.mp found) positive ih
        · rw [List.filter_cons, if_neg (by simpa using positive)]
          refine .other (fun other denotes => ?_) ih
          obtain rfl := Option.some.inj (found.symm.trans (parsed_iff.mpr denotes))
          exact positive

/-- The signals go to the processes that the file lists exactly when no line denotes a
number that is not positive. -/
theorem kills_listed_iff {content : List UInt8} (short : Scannable content) :
    Listed (scanned content) (killCgroupProcs (some content)).1 ↔
      ∀ line ∈ scanned content, ∀ number, Denotes line number → 0 < number := by
  rw [listed_iff, killed_eq short, eq_comm, List.filter_eq_self]
  constructor
  · intro positive line member number denotes
    exact of_decide_eq_true (positive number (List.mem_filterMap.mpr ⟨line, member, parsed_iff.mpr denotes⟩))
  · intro positive number member
    obtain ⟨line, inside, found⟩ := List.mem_filterMap.mp member
    exact decide_eq_true (positive line inside number (parsed_iff.mp found))

/-- A file with carriage returns, a sign, lines that are no numbers and no final newline. -/
theorem mixed_file_kills_listed :
    let content := "12\r\n\n +7\nx9\n99999999999999999999\n 5".toUTF8.data.toList
    Listed (scanned content) (killCgroupProcs (some content)).1 := by
  intro content
  have short : Scannable content := by
    unfold Scannable
    decide +kernel
  apply (kills_listed_iff short).mpr
  have positive : ∀ line ∈ scanned content, ∀ number ∈ parsed line, 0 < number := by decide +kernel
  intro line member number denotes
  exact positive line member number (parsed_iff.mpr denotes)

/-- A process outside of the reader's namespace is listed as 0. -/
theorem foreign_process_kills_group :
    let content := "0\n".toUTF8.data.toList
    Scannable content ∧ (killCgroupProcs (some content)).1 = [0] ∧ ¬ Listed (scanned content) (killCgroupProcs (some content)).1 := by
  intro content
  refine ⟨?_, by decide +kernel, ?_⟩
  · unfold Scannable
    decide +kernel
  · rw [listed_iff]
    decide +kernel

end QuotaManager
