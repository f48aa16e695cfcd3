import Mathlib.Data.Nat.Digits.Lemmas

/-! Numbers of a fixed width as bytes, in the two orders that hosts use. What is written
in one order and read in the other comes back only when both orders agree on it. -/

inductive ByteOrder where
  | little
  | big
  deriving DecidableEq

namespace ByteOrder

/-- The bytes of a number, least significant first. -/
def least : Nat → Nat → List UInt8
  | 0, _ => []
  | width + 1, value => UInt8.ofNat value :: least width (value / 256)

def arrange (order : ByteOrder) (bytes : List UInt8) : List UInt8 :=
  match order with
  | .little => bytes
  | .big => bytes.reverse

def bytes (order : ByteOrder) (width value : Nat) : List UInt8 := order.arrange (least width value)

def number (order : ByteOrder) (bytes : List UInt8) : Nat := Nat.ofDigits 256 ((order.arrange bytes).map UInt8.toNat)

/-- Takes one number off the front; fails when there are too few bytes. -/
def read (order : ByteOrder) (width : Nat) (sample : List UInt8) : Option (Nat × List UInt8) :=
  if sample.length < width then none else some (order.number (sample.take width), sample.drop width)

@[simp] theorem arrange_arrange (order : ByteOrder) (bytes : List UInt8) : order.arrange (order.arrange bytes) = bytes := by
  cases order with
  | little => rfl
  | big => exact List.reverse_reverse bytes

theorem length_least (width value : Nat) : (least width value).length = width := by
  induction width generalizing value with
  | zero => rfl
  | succ width ih => rw [least, List.length_cons, ih]

@[simp] theorem length_bytes (order : ByteOrder) (width value : Nat) : (order.bytes width value).length = width := by
  cases order with
  | little => exact length_least width value
  | big => exact (List.length_reverse ..).trans (length_least width value)

theorem ofDigits_least (width value : Nat) : Nat.ofDigits 256 ((least width value).map UInt8.toNat) = value % 256 ^ width := by
  induction width generalizing value with
  | zero => rw [pow_zero, Nat.mod_one]; rfl
  | succ width ih =>
    have split : value % (256 * 256 ^ width) = value % 256 + 256 * (value / 256 % 256 ^ width) := Nat.mod_mul
    have byte : (UInt8.ofNat value).toNat = value % 256 := UInt8.toNat_ofNat'
    rw [pow_succ', split, least, List.map_cons, Nat.ofDigits_cons, ih, byte]

theorem number_bytes (order : ByteOrder) {width value : Nat} (fits : value < 256 ^ width) :
    order.number (order.bytes width value) = value := by
  rw [number, bytes, arrange_arrange, ofDigits_least, Nat.mod_eq_of_lt fits]

theorem number_inj (order : ByteOrder) {one two : List UInt8} (lengths : one.length = two.length)
    (same : order.number one = order.number two) : one = two := by
  have small (bytes : List UInt8) : ∀ digit ∈ bytes.map UInt8.toNat, digit < 256 := by
    intro digit member
    obtain ⟨byte, _, rfl⟩ := List.mem_map.mp member
    exact byte.toNat_lt
  have arranged : order.arrange one = order.arrange two := by
    apply List.map_injective_iff.mpr (fun _ _ => UInt8.toNat_inj.mp)
    apply Nat.ofDigits_inj_of_len_eq (by decide) _ (small _) (small _) same
    cases order <;> simpa [arrange] using lengths
  rw [← order.arrange_arrange one, arranged, arrange_arrange]

theorem number_lt (order : ByteOrder) (bytes : List UInt8) : order.number bytes < 256 ^ bytes.length := by
  have bound := Nat.ofDigits_lt_base_pow_length (b := 256) (l := (order.arrange bytes).map UInt8.toNat) (by decide) (by
    intro digit member
    obtain ⟨byte, _, rfl⟩ := List.mem_map.mp member
    exact byte.toNat_lt)
  have lengths : ((order.arrange bytes).map UInt8.toNat).length = bytes.length := by
    cases order <;> simp [arrange]
  rwa [lengths] at bound

/-- A number that was written in some order is read back unless the orders differ on it. -/
theorem number_other_iff (order other : ByteOrder) {width value : Nat} (fits : value < 256 ^ width) :
    other.number (order.bytes width value) = value ↔ order.bytes width value = other.bytes width value := by
  constructor
  · intro same
    apply other.number_inj
    · rw [length_bytes, length_bytes]
    · rw [same, other.number_bytes fits]
  · intro same
    rw [same, other.number_bytes fits]

theorem read_append (order : ByteOrder) {width : Nat} {bytes : List UInt8} (exact_width : bytes.length = width) (rest : List UInt8) :
    order.read width (bytes ++ rest) = some (order.number bytes, rest) := by
  subst exact_width
  rw [read, if_neg (by rw [List.length_append]; omega), List.take_left, List.drop_left]

/-- Reading takes what it needs from the sample. -/
theorem read_length {order : ByteOrder} {width value : Nat} {sample rest : List UInt8}
    (taken : order.read width sample = some (value, rest)) : sample.length = width + rest.length := by
  unfold read at taken
  split at taken
  · cases taken
  · obtain ⟨-, rfl⟩ := Prod.mk.inj (Option.some.inj taken)
    rw [List.length_drop]
    omega

end ByteOrder
