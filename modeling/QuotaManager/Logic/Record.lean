import QuotaManager.Logic.Trace

/-! What is observed along a run, in order. What goes into a queue comes out in the same
order, and what is still inside is what has not come out. -/

namespace Trace
variable {σ ε β : Type*} {step : σ → ε → σ}

def log (step : σ → ε → σ) (observe : σ → ε → List β) : σ → List ε → List β
  | _, [] => []
  | state, event :: rest => observe state event ++ log step observe (step state event) rest

@[simp] theorem log_nil (observe : σ → ε → List β) (state : σ) : log step observe state [] = [] := rfl

@[simp] theorem log_cons (observe : σ → ε → List β) (state : σ) (event : ε) (rest : List ε) :
    log step observe state (event :: rest) = observe state event ++ log step observe (step state event) rest := rfl

/-- What grows by at most one with each event stays below a bound in a run that is too short to reach it. -/
theorem along_growth (measure : σ → Nat) (slow : ∀ state event, measure (step state event) ≤ measure state + 1) {bound : Nat}
    {state : σ} {events : List ε} (short : measure state + events.length < bound) :
    Along step (fun state _ => measure state < bound) state events := by
  apply Along.iff_split.mpr
  rintro first event last rfl
  have grown := run_growth step measure slow state first
  rw [List.length_append] at short
  omega

section queue
variable {put took : σ → ε → List β} {queue : σ → List β}

/-- A queue that each event treats as one is a queue over whole runs. -/
theorem log_queue (fair : ∀ state event, took state event ++ queue (step state event) = queue state ++ put state event)
    (state : σ) (events : List ε) :
    log step took state events ++ queue (run step state events) = queue state ++ log step put state events := by
  induction events generalizing state with
  | nil => rw [log_nil, log_nil, List.append_nil, run_nil, List.nil_append]
  | cons event rest ih =>
    rw [log_cons, run_cons, List.append_assoc, ih, ← List.append_assoc, fair, List.append_assoc, log_cons]

/-- What only grows keeps all that is put into it. -/
theorem log_growth (grows : ∀ state event, queue (step state event) = queue state ++ put state event) (state : σ) (events : List ε) :
    queue (run step state events) = queue state ++ log step put state events := by
  induction events generalizing state with
  | nil => rw [log_nil, List.append_nil, run_nil]
  | cons event rest ih => rw [run_cons, ih, grows, log_cons, List.append_assoc]

end queue

/-- Two records that agree on each event agree on whole runs. -/
theorem log_countP {γ : Type*} {observe : σ → ε → List β} {other : σ → ε → List γ} {one : β → Bool} {two : γ → Bool}
    (agree : ∀ state event, (observe state event).countP one = (other state event).countP two) (state : σ) (events : List ε) :
    (log step observe state events).countP one = (log step other state events).countP two := by
  induction events generalizing state with
  | nil => rfl
  | cons event rest ih => rw [log_cons, log_cons, List.countP_append, List.countP_append, agree, ih]

section counter
variable (level : σ → Nat) {gained : σ → ε → List β} {chosen : β → Bool} {property : σ → ε → Prop} {state : σ} {events : List ε}

/-- What each event adds to a counter is added over whole runs. -/
theorem log_counter (holds : Along step property state events)
    (counted : ∀ state event, property state event → level (step state event) = level state + (gained state event).countP chosen) :
    level (run step state events) = level state + (log step gained state events).countP chosen := by
  induction events generalizing state with
  | nil => rfl
  | cons event rest ih =>
    rw [run_cons, ih holds.2, counted _ _ holds.1, log_cons, List.countP_append, Nat.add_assoc]

end counter

/-- Books that balance for each event balance over whole runs. -/
theorem log_balance (credit debit : σ → Nat) {gained lost : σ → ε → List β} {property : σ → ε → Prop} {state : σ} {events : List ε}
    (holds : Along step property state events)
    (balanced : ∀ state event, property state event →
      credit (step state event) + (lost state event).length + debit state =
        credit state + (gained state event).length + debit (step state event)) :
    credit (run step state events) + (log step lost state events).length + debit state =
      credit state + (log step gained state events).length + debit (run step state events) := by
  induction events generalizing state with
  | nil => rfl
  | cons event rest ih =>
    have first := balanced state event holds.1
    have later := ih holds.2
    rw [run_cons, log_cons, log_cons, List.length_append, List.length_append]
    omega

end Trace
