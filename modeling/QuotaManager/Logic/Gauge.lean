import Mathlib.Data.Nat.Init

/-! A gauge counts between zero and a cap. It is the abstract purpose of a usage
counter with a limit: one more unit is admitted exactly below the cap, and giving
a unit back never goes below zero. -/

namespace Gauge

inductive Move where
  | up
  | down
  | stay

def step (cap reading : Nat) : Move → Nat
  | .up => if reading < cap then reading + 1 else reading
  | .down => reading - 1
  | .stay => reading

theorem step_le {cap reading : Nat} (bounded : reading ≤ cap) (move : Move) : step cap reading move ≤ cap := by
  cases move <;> simp only [step]
  · split <;> omega
  · omega
  · exact bounded

/-- Two gauges fed with the same moves, the second with the larger cap: it reads at
least as much, and more by no more than the caps differ. -/
structure Coupled (cap larger first second : Nat) : Prop where
  ordered : cap ≤ larger
  bounded : first ≤ cap
  below : first ≤ second
  apart : second ≤ first + (larger - cap)

namespace Coupled
variable {cap larger first second : Nat}

theorem start (ordered : cap ≤ larger) : Coupled cap larger 0 0 :=
  ⟨ordered, Nat.zero_le _, Nat.le_refl _, Nat.zero_le _⟩

/-- A cap reached by the larger gauge is reached by the smaller one. -/
theorem admits (coupled : Coupled cap larger first second) (room : first < cap) : second < larger := by
  have := coupled.apart
  have := coupled.ordered
  omega

theorem step (coupled : Coupled cap larger first second) (move : Move) :
    Coupled cap larger (Gauge.step cap first move) (Gauge.step larger second move) := by
  obtain ⟨ordered, bounded, below, apart⟩ := coupled
  refine ⟨ordered, step_le bounded move, ?_, ?_⟩
  all_goals
    cases move <;> simp only [Gauge.step]
    · split <;> split <;> omega
    · omega
    · assumption

end Coupled

end Gauge
