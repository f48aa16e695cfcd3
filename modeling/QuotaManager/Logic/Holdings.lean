import Mathlib.Algebra.Order.BigOperators.Group.List
import Mathlib.Algebra.BigOperators.Group.Finset.Piecewise
import Mathlib.Algebra.Order.BigOperators.Group.Finset
import Mathlib.Algebra.Order.Ring.Int
import Mathlib.Data.Finset.Insert
import Mathlib.Data.List.AList

/-! What each of several holders has of a common pool. A pool within its cap stays
there when somebody new is granted part of the rest, or when holders leave. -/

namespace Holdings
variable {κ β : Type} (weight : β → Int)

def held [DecidableEq κ] (holdings : AList fun _ : κ => β) (key : κ) : Int := (holdings.lookup key).elim 0 weight

def total (holdings : AList fun _ : κ => β) : Int := (holdings.entries.map fun entry => weight entry.2).sum

/-- Only the holders that are kept stay. -/
def retain (keep : κ → Bool) (holdings : AList fun _ : κ => β) : AList fun _ : κ => β :=
  ⟨holdings.entries.filter fun entry => keep entry.1,
    holdings.nodupKeys.sublist List.filter_sublist⟩

theorem mem_retain {keep : κ → Bool} {holdings : AList fun _ : κ => β} {key : κ} :
    key ∈ retain keep holdings ↔ key ∈ holdings ∧ keep key = true := by
  rw [AList.mem_keys, AList.mem_keys]
  constructor
  · intro inside
    obtain ⟨value, member⟩ := List.mem_keys.mp inside
    obtain ⟨member, kept⟩ := List.mem_filter.mp member
    exact ⟨List.mem_keys_of_mem member, kept⟩
  · rintro ⟨inside, kept⟩
    obtain ⟨value, member⟩ := List.mem_keys.mp inside
    exact List.mem_keys.mpr ⟨value, List.mem_filter.mpr ⟨member, kept⟩⟩

theorem lookup_retain [DecidableEq κ] (keep : κ → Bool) (holdings : AList fun _ : κ => β) (key : κ) :
    (retain keep holdings).lookup key = if keep key then holdings.lookup key else none := by
  apply Option.ext
  intro value
  have inside : value ∈ (retain keep holdings).lookup key ↔ value ∈ holdings.lookup key ∧ keep key = true := by
    rw [AList.mem_lookup_iff, AList.mem_lookup_iff]
    exact List.mem_filter
  cases kept : keep key <;> simpa [kept] using inside

/-- Everybody holds something, and together no more than the cap. -/
structure Within (cap : Int) (holdings : AList fun _ : κ => β) : Prop where
  positive : ∀ entry ∈ holdings.entries, 1 ≤ weight entry.2
  bounded : total weight holdings ≤ cap

variable {weight} {holdings : AList fun _ : κ => β} {cap : Int}

theorem total_grant [DecidableEq κ] {key : κ} (fresh : key ∉ holdings) (value : β) :
    total weight (holdings.insert key value) = weight value + total weight holdings := by
  simp only [total, AList.entries_insert_of_notMem fresh, List.map_cons, List.sum_cons]

variable (weight) in
theorem total_erase [DecidableEq κ] (holdings : AList fun _ : κ => β) (key : κ) :
    total weight holdings = held weight holdings key + total weight (holdings.erase key) := by
  by_cases member : key ∈ holdings
  · obtain ⟨value, first, last, _, split, erased⟩ := List.exists_of_kerase (AList.mem_keys.mp member)
    have found : holdings.lookup key = some value := by
      apply AList.mem_lookup_iff.mpr
      rw [split]
      exact List.mem_append_right _ List.mem_cons_self
    have kept : (holdings.erase key).entries = first ++ last := erased
    simp only [total, held, found, Option.elim_some, kept]
    simp only [split, List.map_append, List.sum_append, List.map_cons, List.sum_cons]
    omega
  · have missing : holdings.lookup key = none := AList.lookup_eq_none.mpr member
    have same : holdings.erase key = holdings := AList.ext (List.kerase_of_notMem_keys member)
    simp only [held, missing, Option.elim_none, same, Int.zero_add]

/-- Any amounts that are given out at once stay within the cap. -/
def Fits (cap : Int) (amount : κ → Int) : Prop := ∀ keys : Finset κ, ∑ key ∈ keys, amount key ≤ cap

theorem fits_pair [DecidableEq κ] {amount : κ → Int} (fits : Fits cap amount) {one two : κ} (different : one ≠ two) :
    amount one + amount two ≤ cap := by
  have pair := fits {one, two}
  rwa [Finset.sum_pair different] at pair

/-- Next to somebody who has drawn the whole cap nobody may draw. -/
theorem fits_whole_iff [DecidableEq κ] {amount : κ → Int} {key : κ} (own : amount key = cap) (nonneg : 0 ≤ cap)
    (others : ∀ other, other ≠ key → 0 ≤ amount other) :
    Fits cap amount ↔ ∀ other, other ≠ key → amount other = 0 := by
  constructor
  · intro fits other different
    have pair := fits_pair fits different
    have := others other different
    omega
  · intro idle keys
    have same : ∀ other ∈ keys, amount other = if other = key then cap else 0 := by
      intro other _
      split
      next here => rw [here, own]
      next different => exact idle other different
    rw [Finset.sum_congr rfl same, Finset.sum_ite_eq']
    split
    · exact Int.le_refl _
    · exact nonneg

namespace Within

theorem empty (nonneg : 0 ≤ cap) : Within weight cap (∅ : AList fun _ : κ => β) :=
  ⟨fun _ impossible => absurd impossible List.not_mem_nil, nonneg⟩

theorem total_nonneg (within : Within weight cap holdings) : 0 ≤ total weight holdings := by
  apply List.sum_nonneg
  intro amount member
  obtain ⟨entry, inside, rfl⟩ := List.mem_map.mp member
  have := within.positive entry inside
  omega

theorem sublist (within : Within weight cap holdings) {other : AList fun _ : κ => β}
    (fewer : other.entries.Sublist holdings.entries) : Within weight cap other := by
  refine ⟨fun entry inside => within.positive entry (fewer.subset inside), ?_⟩
  apply Int.le_trans ((fewer.map _).sum_le_sum ?_) within.bounded
  intro amount member
  obtain ⟨entry, inside, rfl⟩ := List.mem_map.mp member
  have := within.positive entry inside
  omega

theorem retain (within : Within weight cap holdings) (keep : κ → Bool) :
    Within weight cap (retain keep holdings) :=
  within.sublist List.filter_sublist

variable [DecidableEq κ]

theorem erase (within : Within weight cap holdings) (key : κ) : Within weight cap (holdings.erase key) :=
  within.sublist (List.kerase_sublist key holdings.entries)

theorem grant (within : Within weight cap holdings) {key : κ} (fresh : key ∉ holdings) {value : β}
    (something : 1 ≤ weight value) (room : weight value ≤ cap - total weight holdings) :
    Within weight cap (holdings.insert key value) := by
  refine ⟨?_, ?_⟩
  · intro entry inside
    rw [AList.entries_insert_of_notMem fresh] at inside
    rcases List.mem_cons.mp inside with rfl | old
    · exact something
    · exact within.positive entry old
  · rw [total_grant fresh]
    omega

theorem lookup_positive (within : Within weight cap holdings) {key : κ} {value : β}
    (found : holdings.lookup key = some value) : 1 ≤ weight value :=
  within.positive ⟨key, value⟩ (AList.mem_lookup_iff.mp found)

theorem sum_held_le (within : Within weight cap holdings) (keys : Finset κ) :
    ∑ key ∈ keys, held weight holdings key ≤ total weight holdings := by
  induction keys using Finset.induction generalizing holdings with
  | empty => simpa using within.total_nonneg
  | insert key keys fresh ih =>
    have rest : ∑ other ∈ keys, held weight (holdings.erase key) other = ∑ other ∈ keys, held weight holdings other := by
      apply Finset.sum_congr rfl
      intro other member
      have different : other ≠ key := by rintro rfl; exact fresh member
      simp only [held, AList.lookup_erase_ne different]
    have := ih (within.erase key)
    rw [Finset.sum_insert fresh, total_erase weight holdings key, ← rest]
    omega

/-- Amounts that the holdings back fit under the cap together. -/
theorem fits (within : Within weight cap holdings) {amount : κ → Int}
    (backed : ∀ key, amount key ≤ held weight holdings key) : Fits cap amount := fun keys =>
  calc ∑ key ∈ keys, amount key
      ≤ ∑ key ∈ keys, held weight holdings key := Finset.sum_le_sum fun key _ => backed key
    _ ≤ total weight holdings := within.sum_held_le keys
    _ ≤ cap := within.bounded

/-- When everybody draws what they hold or the whole cap, a backed amount fits exactly
next to backed amounts. -/
theorem fits_backed_iff (within : Within weight cap holdings) {amount : κ → Int} {key : κ} (some_drawn : 1 ≤ amount key)
    (own : amount key ≤ held weight holdings key)
    (others : ∀ other, other ≠ key → amount other ≤ held weight holdings other ∨ amount other = cap) :
    Fits cap amount ↔ ∀ other, other ≠ key → amount other ≤ held weight holdings other := by
  constructor
  · intro fits other different
    rcases others other different with backed | whole
    · exact backed
    · have pair := fits_pair fits different
      omega
  · intro backed
    apply within.fits
    intro other
    by_cases here : other = key
    · rw [here]
      exact own
    · exact backed other here

end Within
end Holdings
