import Mathlib.Order.Basic

/-! Machine arithmetic that remembers whether it was exact. The value is what the
machine computes; `exact` says that no operation on the way overflowed. -/

structure Checked (α : Type) where
  value : α
  exact : Prop

namespace Checked

instance : Monad Checked where
  pure value := ⟨value, True⟩
  bind first next := ⟨(next first.value).value, first.exact ∧ (next first.value).exact⟩

def add (a b : Int64) : Checked Int64 := ⟨a + b, (a + b).toInt = a.toInt + b.toInt⟩

def sub (a b : Int64) : Checked Int64 := ⟨a - b, (a - b).toInt = a.toInt - b.toInt⟩

/-- Adds up the amounts from the left. -/
def sum (amounts : List Int64) : Checked Int64 :=
  amounts.foldlM add 0

variable {α β : Type}

@[simp] theorem pure_value (value : α) : (pure value : Checked α).value = value := rfl

@[simp] theorem pure_exact (value : α) : (pure value : Checked α).exact ↔ True := .rfl

@[simp] theorem bind_value (first : Checked α) (next : α → Checked β) :
    (first >>= next).value = (next first.value).value := rfl

@[simp] theorem bind_exact (first : Checked α) (next : α → Checked β) :
    (first >>= next).exact ↔ first.exact ∧ (next first.value).exact := .rfl

@[simp] theorem add_value (a b : Int64) : (add a b).value = a + b := rfl

@[simp] theorem sub_value (a b : Int64) : (sub a b).value = a - b := rfl

end Checked
