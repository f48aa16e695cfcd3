import QuotaManager.Logic.Trace

/-! Two machines that answer the same events. As long as an event meets the condition
both give the same answer and stay related; the first one that does not tells them
apart, whatever happens after it. -/

namespace Lockstep

variable {σ τ ε ο : Type*}

/-- The answers of a run, in order. -/
def answers (step : σ → ε → ο × σ) : σ → List ε → List ο
  | _, [] => []
  | state, event :: rest => (step state event).1 :: answers step (step state event).2 rest

variable {one : σ → ε → ο × σ} {two : τ → ε → ο × τ}

/-- The machines answer alike exactly when every event of the run meets the condition. -/
theorem answers_eq_iff (related : σ → τ → Prop) (condition : σ → ε → Prop)
    (same : ∀ first second event, related first second → condition first event →
      (one first event).1 = (two second event).1 ∧ related (one first event).2 (two second event).2)
    (apart : ∀ first second event, related first second → ¬ condition first event →
      (one first event).1 ≠ (two second event).1)
    {first : σ} {second : τ} (start : related first second) (events : List ε) :
    answers one first events = answers two second events ↔
      Trace.Along (fun state event => (one state event).2) condition first events := by
  induction events generalizing first second with
  | nil => exact ⟨fun _ => trivial, fun _ => rfl⟩
  | cons event rest ih =>
    simp only [answers, List.cons.injEq, Trace.Along.cons_iff]
    by_cases met : condition first event
    · obtain ⟨agree, later⟩ := same first second event start met
      rw [ih later]
      exact ⟨fun both => ⟨met, both.2⟩, fun both => ⟨agree, both.2⟩⟩
    · have differ := apart first second event start met
      exact ⟨fun both => absurd both.1 differ, fun both => absurd both.1 met⟩

end Lockstep
