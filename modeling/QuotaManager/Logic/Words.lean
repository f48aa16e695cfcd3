import Mathlib.Algebra.Order.Ring.Int
import Mathlib.Data.Fintype.Basic
import Mathlib.Data.Fintype.OfMap

/-! Machine words as numbers: when an operation on 64-bit words agrees with the
same operation on integers. -/

namespace Words

instance fintype : Fintype UInt64 := .ofEquiv (Fin (2 ^ 64)) ⟨.ofFin, UInt64.toFin, fun _ => rfl, fun _ => rfl⟩

theorem toNat_sub_one {a : UInt64} (nonzero : a ≠ 0) : (a - 1).toNat = a.toNat - 1 := by
  have positive : a.toNat ≠ 0 := fun zero => nonzero (UInt64.toNat_inj.mp zero)
  rw [UInt64.toNat_sub_of_le]
  · rfl
  · exact UInt64.le_iff_toNat_le.mpr (Nat.one_le_iff_ne_zero.mpr positive)

theorem toNat_add_of_lt {a b : UInt64} (fits : a.toNat + b.toNat < 2 ^ 64) :
    (a + b).toNat = a.toNat + b.toNat := by
  rw [UInt64.toNat_add, Nat.mod_eq_of_lt fits]

theorem toNat_succ_of_lt {a b : UInt64} (below : a < b) : (a + 1).toNat = a.toNat + 1 := by
  have := UInt64.lt_iff_toNat_lt.mp below
  have := b.toNat_lt
  exact toNat_add_of_lt (by simp; omega)

theorem toNat_toUInt64 {a : Int64} (nonneg : 0 ≤ a) : (a.toUInt64.toNat : Int) = a.toInt := by
  rw [Int64.toNat_toUInt64_of_le nonneg, Int64.cast_toNatClampNeg a nonneg]

/-- A signed addition whose exact result is representable does not overflow. -/
theorem toInt_add_of_fits {a b : Int64} (low : -2 ^ 63 ≤ a.toInt + b.toInt)
    (high : a.toInt + b.toInt < 2 ^ 63) : (a + b).toInt = a.toInt + b.toInt := by
  rw [Int64.toInt_add]
  exact Int.bmod_eq_of_le (by omega) (by omega)

theorem toInt_sub_of_fits {a b : Int64} (low : -2 ^ 63 ≤ a.toInt - b.toInt)
    (high : a.toInt - b.toInt < 2 ^ 63) : (a - b).toInt = a.toInt - b.toInt := by
  rw [Int64.toInt_sub]
  exact Int.bmod_eq_of_le (by omega) (by omega)

theorem toInt_min (a b : Int64) : (min a b).toInt = min a.toInt b.toInt := by
  change (if a ≤ b then a else b).toInt = _
  rw [Int.min_def]
  simp only [Int64.le_iff_toInt_le]
  split <;> rfl

theorem toInt_max (a b : Int64) : (max a b).toInt = max a.toInt b.toInt := by
  change (if a ≤ b then b else a).toInt = _
  rw [Int.max_def]
  simp only [Int64.le_iff_toInt_le]
  split <;> rfl

end Words
