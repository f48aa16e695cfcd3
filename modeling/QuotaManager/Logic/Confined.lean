/-! What a computation reads and writes of a state that is seen through cells. The
judgement composes over sequencing, and two computations commute when neither writes
what the other one reads. -/

section Confined
variable {σ ι α β : Type} {content : ι → Type} (cell : σ → ∀ i, content i)

def Agree (region : ι → Prop) (one two : σ) : Prop := ∀ i, region i → cell one i = cell two i

/-- From the states that it expects, a computation changes only what it writes, and what
it makes of the cells that it reads depends on these alone. -/
structure Confined (reads writes : ι → Prop) (expects : σ → Prop) (goal : α → Prop) (act : σ → α × σ) : Prop where
  frame : ∀ state, expects state → ∀ i, ¬ writes i → cell (act state).2 i = cell state i
  kept : ∀ state, expects state → expects (act state).2 ∧ goal (act state).1
  same : ∀ one two, expects one → expects two → Agree cell reads one two →
    (act one).1 = (act two).1 ∧ Agree cell reads (act one).2 (act two).2

namespace Confined
variable {cell} {reads writes : ι → Prop} {expects : σ → Prop} {goal : α → Prop} {result : β → Prop}
  {act : σ → α × σ}

theorem pure {value : α} (known : goal value) : Confined cell reads writes expects goal fun state => (value, state) where
  frame _ _ _ _ := rfl
  kept _ expected := ⟨expected, known⟩
  same _ _ _ _ agree := ⟨rfl, agree⟩

theorem bind (first : Confined cell reads writes expects goal act) {next : α → σ → β × σ}
    (onward : ∀ value, goal value → Confined cell reads writes expects result (next value)) :
    Confined cell reads writes expects result fun state => next (act state).1 (act state).2 where
  frame state expected i outside := by
    obtain ⟨later, known⟩ := first.kept state expected
    exact ((onward _ known).frame _ later i outside).trans (first.frame state expected i outside)
  kept state expected := by
    obtain ⟨later, known⟩ := first.kept state expected
    exact (onward _ known).kept _ later
  same one two expectedOne expectedTwo agree := by
    obtain ⟨value, after⟩ := first.same one two expectedOne expectedTwo agree
    obtain ⟨laterOne, known⟩ := first.kept one expectedOne
    obtain ⟨laterTwo, _⟩ := first.kept two expectedTwo
    rw [← value]
    exact (onward _ known).same _ _ laterOne laterTwo after

/-- Whatever is determined by the cells that a computation reads is still so after one
that writes none of them. -/
theorem untouched (first : Confined cell reads writes expects goal act) {others : ι → Prop}
    (apart : ∀ i, others i → ¬ writes i) {state : σ} (expected : expects state) :
    Agree cell others state (act state).2 :=
  fun i inside => (first.frame state expected i (apart i inside)).symm

section commute
variable {readsOne writesOne readsTwo writesTwo : ι → Prop} {expectsOne expectsTwo : σ → Prop} {goalOne : α → Prop}
  {goalTwo : β → Prop} {one : σ → α × σ} {two : σ → β × σ}

theorem commute (first : Confined cell readsOne writesOne expectsOne goalOne one)
    (second : Confined cell readsTwo writesTwo expectsTwo goalTwo two)
    (ownOne : ∀ i, writesOne i → readsOne i) (ownTwo : ∀ i, writesTwo i → readsTwo i)
    (apartOne : ∀ i, readsOne i → ¬ writesTwo i) (apartTwo : ∀ i, readsTwo i → ¬ writesOne i)
    (stableOne : ∀ state later, Agree cell readsOne state later → expectsOne state → expectsOne later)
    (stableTwo : ∀ state later, Agree cell readsTwo state later → expectsTwo state → expectsTwo later)
    {state : σ} (metOne : expectsOne state) (metTwo : expectsTwo state) (i : ι) :
    cell (two (one state).2).2 i = cell (one (two state).2).2 i := by
  have seenTwo := first.untouched apartTwo metOne
  have seenOne := second.untouched apartOne metTwo
  have laterTwo := stableTwo _ _ seenTwo metTwo
  have laterOne := stableOne _ _ seenOne metOne
  by_cases writtenOne : writesOne i
  · have free := apartOne i (ownOne i writtenOne)
    calc cell (two (one state).2).2 i
        = cell (one state).2 i := second.frame _ laterTwo i free
      _ = cell (one (two state).2).2 i := (first.same _ _ metOne laterOne seenOne).2 i (ownOne i writtenOne)
  · rw [first.frame _ laterOne i writtenOne]
    by_cases writtenTwo : writesTwo i
    · exact ((second.same _ _ metTwo laterTwo seenTwo).2 i (ownTwo i writtenTwo)).symm
    · rw [second.frame _ laterTwo i writtenTwo, second.frame _ metTwo i writtenTwo]
      exact first.frame _ metOne i writtenOne

end commute

end Confined
end Confined
