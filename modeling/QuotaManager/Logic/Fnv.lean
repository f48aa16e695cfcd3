import Mathlib.Data.List.Basic
import Mathlib.Tactic.LinearCombination

/-! FNV-1a with 64 bits. A byte changes the sum by less than 256 before it is multiplied,
and the powers of the prime are too far apart for such changes to cancel, as long as they
are at most four bytes apart. -/

namespace Fnv

def prime : UInt64 := 1099511628211

def absorb (sum : UInt64) (byte : UInt8) : UInt64 := (sum ^^^ byte.toUInt64) * prime

def hash (sum : UInt64) (bytes : List UInt8) : UInt64 := bytes.foldl absorb sum

theorem hash_append (sum : UInt64) (first last : List UInt8) : hash sum (first ++ last) = hash (hash sum first) last :=
  List.foldl_append

/-- The prime is odd. -/
theorem mul_prime_inj {one two : UInt64} (same : one * prime = two * prime) : one = two := by
  have inverse : prime * 14886173955864302971 = 1 := by decide
  have undone (word : UInt64) : word * prime * 14886173955864302971 = word := by
    rw [UInt64.mul_assoc, inverse, UInt64.mul_one]
  rw [← undone one, same, undone]

theorem xor_left_inj {one two : UInt64} {byte : UInt8} (same : one ^^^ byte.toUInt64 = two ^^^ byte.toUInt64) : one = two := by
  have undone (word : UInt64) : word ^^^ byte.toUInt64 ^^^ byte.toUInt64 = word := by
    rw [UInt64.xor_assoc, UInt64.xor_self, UInt64.xor_zero]
  rw [← undone one, same, undone]

theorem absorb_inj {one two : UInt64} {byte : UInt8} (same : absorb one byte = absorb two byte) : one = two :=
  xor_left_inj (mul_prime_inj same)

/-- What follows never makes two sums equal. -/
theorem hash_inj {one two : UInt64} {bytes : List UInt8} (same : hash one bytes = hash two bytes) : one = two := by
  induction bytes generalizing one two with
  | nil => exact same
  | cons byte rest ih => exact absorb_inj (ih same)

/-- By how much a byte changes the sum. -/
def change (sum : UInt64) (byte : UInt8) : Int := (sum ^^^ byte.toUInt64).toNat - sum.toNat

theorem change_bounds (sum : UInt64) (byte : UInt8) : -255 ≤ change sum byte ∧ change sum byte ≤ 255 := by
  have small := byte.toNat_lt
  have high : (sum.toNat ^^^ byte.toNat) / 2 ^ 8 = sum.toNat / 2 ^ 8 := by
    rw [Nat.xor_div_two_pow, Nat.div_eq_of_lt small, Nat.xor_zero]
  rw [change, UInt64.toNat_xor, UInt8.toNat_toUInt64]
  omega

theorem change_inj {sum : UInt64} {one two : UInt8} (same : change sum one = change sum two) : one = two := by
  have words : sum ^^^ one.toUInt64 = sum ^^^ two.toUInt64 := by
    apply UInt64.toNat_inj.mp
    unfold change at same
    omega
  have undone (byte : UInt8) : sum ^^^ (sum ^^^ byte.toUInt64) = byte.toUInt64 := by
    rw [← UInt64.xor_assoc, UInt64.xor_self, UInt64.zero_xor]
  have bytes := congrArg (sum ^^^ ·) words
  simp only [undone] at bytes
  apply UInt8.toNat_inj.mp
  rw [← UInt8.toNat_toUInt64, ← UInt8.toNat_toUInt64, bytes]

/-- The next sum as a number, up to a multiple of `2 ^ 64`. -/
theorem absorb_toNat (sum : UInt64) (byte : UInt8) :
    ∃ wraps : Int, (absorb sum byte).toNat = (sum.toNat + change sum byte) * 1099511628211 + 2 ^ 64 * wraps := by
  refine ⟨-((sum ^^^ byte.toUInt64).toNat * 1099511628211 / 2 ^ 64 : Nat), ?_⟩
  have product : (absorb sum byte).toNat = (sum ^^^ byte.toUInt64).toNat * 1099511628211 % 2 ^ 64 := UInt64.toNat_mul ..
  have split := Nat.div_add_mod ((sum ^^^ byte.toUInt64).toNat * 1099511628211) (2 ^ 64)
  rw [product, change]
  push_cast
  omega

/-- The prime is no root, modulo `2 ^ 64`, of a cubic with small coefficients. The lower 40
bits make 435 a root, the upper 24 bits make it a double root; its cube is too large for that. -/
theorem no_small_cubic {one two three four wraps : Int} (first : -510 ≤ one ∧ one ≤ 510) (second : -510 ≤ two ∧ two ≤ 510)
    (third : -510 ≤ three ∧ three ≤ 510) (fourth : -510 ≤ four ∧ four ≤ 510)
    (root : one * 1099511628211 ^ 3 + two * 1099511628211 ^ 2 + three * 1099511628211 + four = 2 ^ 64 * wraps) :
    one = 0 ∧ two = 0 ∧ three = 0 ∧ four = 0 := by
  have low : one * 82312875 + two * 189225 + three * 435 + four = 0 := by omega
  have high : ∃ more, one * 567675 + two * 870 + three = 2 ^ 24 * more := by
    exact ⟨wraps - one * 1305 * 65536 - two * 65536 - one * 2 ^ 56, by omega⟩
  obtain ⟨more, double⟩ := high
  have last : one * 189225 + two * 435 + three ≤ 1 ∧ -1 ≤ one * 189225 + two * 435 + three := by omega
  have middle : one * 435 + two ≤ 1 ∧ -1 ≤ one * 435 + two := by omega
  have lead : one ≤ 1 ∧ -1 ≤ one := by omega
  have again : one * 189225 + (one * 435 + two) * 435 + (one * 189225 + two * 435 + three) = 0 := by omega
  have constant : one * 189225 + two * 435 + three = 0 := by omega
  have linear : one * 435 + two = 0 := by omega
  omega

/-- Of two sums that become equal, each differs from the other by what the last bytes change. -/
theorem absorb_same {one two : UInt64} {byte other : UInt8} (same : absorb one byte = absorb two other) :
    (one.toNat : Int) + change one byte = two.toNat + change two other := by
  have words := mul_prime_inj same
  unfold change
  rw [words]
  omega

/-- Four bytes are told apart. -/
theorem hash_four {sum : UInt64} {a b c d a' b' c' d' : UInt8} (same : hash sum [a, b, c, d] = hash sum [a', b', c', d']) :
    [a, b, c, d] = [a', b', c', d'] := by
  have last := absorb_same (show absorb (absorb (absorb (absorb sum a) b) c) d = absorb (absorb (absorb (absorb sum a') b') c') d' from same)
  obtain ⟨wraps, first⟩ := absorb_toNat sum a
  obtain ⟨wraps', first'⟩ := absorb_toNat sum a'
  obtain ⟨more, second⟩ := absorb_toNat (absorb sum a) b
  obtain ⟨more', second'⟩ := absorb_toNat (absorb sum a') b'
  obtain ⟨rest, third⟩ := absorb_toNat (absorb (absorb sum a) b) c
  obtain ⟨rest', third'⟩ := absorb_toNat (absorb (absorb sum a') b') c'
  have root : (change sum a - change sum a') * 1099511628211 ^ 3 +
      (change (absorb sum a) b - change (absorb sum a') b') * 1099511628211 ^ 2 +
      (change (absorb (absorb sum a) b) c - change (absorb (absorb sum a') b') c') * 1099511628211 +
      (change (absorb (absorb (absorb sum a) b) c) d - change (absorb (absorb (absorb sum a') b') c') d') =
        2 ^ 64 * -((wraps - wraps') * 1099511628211 ^ 2 + (more - more') * 1099511628211 + (rest - rest')) := by
    linear_combination last - third + third' - 1099511628211 * (second - second') - 1099511628211 ^ 2 * (first - first')
  have small {one two : UInt64} (byte other : UInt8) :
      -510 ≤ change one byte - change two other ∧ change one byte - change two other ≤ 510 := by
    have := change_bounds one byte
    have := change_bounds two other
    omega
  obtain ⟨one, two, three, four⟩ := no_small_cubic (small a a') (small b b') (small c c') (small d d') root
  -- equal changes of equal sums come from equal bytes
  obtain rfl := change_inj (sub_eq_zero.mp one)
  obtain rfl := change_inj (sub_eq_zero.mp two)
  obtain rfl := change_inj (sub_eq_zero.mp three)
  obtain rfl := change_inj (sub_eq_zero.mp four)
  rfl

/-- Up to four bytes in a row are told apart, wherever they stand. -/
theorem hash_window {sum : UInt64} {one two last : List UInt8} (lengths : one.length = two.length) (short : one.length ≤ 4)
    (same : hash sum (one ++ last) = hash sum (two ++ last)) : one = two := by
  rw [hash_append, hash_append] at same
  have padded : hash sum (one ++ List.replicate (4 - one.length) 0) = hash sum (two ++ List.replicate (4 - one.length) 0) := by
    rw [hash_append, hash_append, hash_inj same]
  have whole (bytes : List UInt8) (long : bytes.length = one.length) :
      ∃ a b c d, bytes ++ List.replicate (4 - one.length) 0 = [a, b, c, d] := by
    have four : (bytes ++ List.replicate (4 - one.length) 0).length = 4 := by
      rw [List.length_append, List.length_replicate]
      omega
    exact List.length_eq_four.mp four
  obtain ⟨a, b, c, d, first⟩ := whole one rfl
  obtain ⟨a', b', c', d', second⟩ := whole two lengths.symm
  rw [first, second] at padded
  have letters := hash_four padded
  rw [← first, ← second] at letters
  exact List.append_cancel_right letters

end Fnv
