import Mathlib.Data.Nat.Init

/-! A reading with a cap that is looked at first and raised later. Whoever has seen the
reading below the cap holds a ticket and may raise it, whatever happens in between. The
reading passes the cap by less than the tickets that are out at once. -/

structure Turnstile where
  reading : Nat
  tickets : Nat

namespace Turnstile

inductive Step (cap : Nat) (before after : Turnstile) : Prop where
  | look (room : before.reading < cap) (reading : after.reading = before.reading)
  | pass (reading : after.reading = before.reading + 1) (tickets : after.tickets + 1 = before.tickets)
  | giveBack (reading : after.reading ≤ before.reading) (tickets : after.tickets ≤ before.tickets)

/-- Either nobody has passed since the start, or the cap holds for all but the tickets. -/
def Bounded (cap width start : Nat) (state : Turnstile) : Prop :=
  state.tickets = 0 ∧ state.reading ≤ start ∨ state.reading + state.tickets + 1 ≤ cap + width

variable {cap width start : Nat} {before after : Turnstile}

theorem Bounded.reading_le {state : Turnstile} (bounded : Bounded cap width start state) :
    state.reading ≤ max start (cap + width - 1) := by
  rcases bounded with ⟨_, old⟩ | within <;> omega

/-- The step lemma, with at most `width` tickets out after the step. -/
theorem Bounded.step (bounded : Bounded cap width start before) (step : Step cap before after) (few : after.tickets ≤ width) :
    Bounded cap width start after := by
  cases step with
  | look room reading => exact .inr (by omega)
  | pass reading tickets =>
    rcases bounded with ⟨none, _⟩ | within
    · omega
    · exact .inr (by omega)
  | giveBack reading tickets =>
    rcases bounded with ⟨none, old⟩ | within
    · exact .inl (by omega)
    · exact .inr (by omega)

end Turnstile
