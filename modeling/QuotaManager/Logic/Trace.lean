import Mathlib.Data.List.Infix

/-! Runs of a deterministic machine. A property of a run is either a property of
each event at the state it meets (`Along`) or of each state passed through
(`Throughout`); the rules below trade one for the other under an invariant. -/

namespace Trace

variable {σ ε : Type*} (step : σ → ε → σ)

def run (state : σ) (events : List ε) : σ := events.foldl step state

@[simp] theorem run_nil (state : σ) : run step state [] = state := rfl

@[simp] theorem run_cons (state : σ) (event : ε) (rest : List ε) :
    run step state (event :: rest) = run step (step state event) rest := rfl

theorem run_append (state : σ) (first last : List ε) :
    run step state (first ++ last) = run step (run step state first) last :=
  List.foldl_append

theorem run_invariant (kept : σ → Prop) (preserved : ∀ state event, kept state → kept (step state event))
    {state : σ} (start : kept state) (events : List ε) : kept (run step state events) := by
  induction events generalizing state with
  | nil => exact start
  | cons event rest ih => exact ih (preserved _ _ start)

/-- What grows by at most one with each event grows by at most the length of the run. -/
theorem run_growth (measure : σ → Nat) (slow : ∀ state event, measure (step state event) ≤ measure state + 1) (state : σ)
    (events : List ε) : measure (run step state events) ≤ measure state + events.length := by
  induction events generalizing state with
  | nil => exact Nat.le_refl _
  | cons event rest ih =>
    have first := slow state event
    have later := ih (step state event)
    rw [run_cons, List.length_cons]
    omega

/-- Every event of the run satisfies the property at the state it meets. -/
def Along (property : σ → ε → Prop) : σ → List ε → Prop
  | _, [] => True
  | state, event :: rest => property state event ∧ Along property (step state event) rest

/-- Every state of the run satisfies the property, the first and the last included. -/
def Throughout (property : σ → Prop) (state : σ) (events : List ε) : Prop :=
  ∀ first, first <+: events → property (run step state first)

variable {step}

namespace Along
variable {property other : σ → ε → Prop} {state : σ} {events first last : List ε} {event : ε}

@[simp] theorem nil : Along step property state [] := trivial

@[simp] theorem cons_iff {rest : List ε} : Along step property state (event :: rest) ↔
    property state event ∧ Along step property (step state event) rest := .rfl

instance decidable (step : σ → ε → σ) (property : σ → ε → Prop) [∀ state event, Decidable (property state event)] (state : σ) :
    (events : List ε) → Decidable (Along step property state events)
  | [] => isTrue trivial
  | event :: rest =>
    have := decidable step property (step state event) rest
    inferInstanceAs (Decidable (_ ∧ _))

theorem append_iff : Along step property state (first ++ last) ↔
    Along step property state first ∧ Along step property (run step state first) last := by
  induction first generalizing state with
  | nil => simp
  | cons event rest ih => simp only [List.cons_append, cons_iff, ih, run_cons, and_assoc]

theorem iff_split : Along step property state events ↔
    ∀ first event last, events = first ++ event :: last → property (run step state first) event := by
  constructor
  · rintro holds first event last rfl
    exact (append_iff.mp holds).2.1
  · intro holds
    induction events generalizing state with
    | nil => trivial
    | cons event rest ih =>
      refine ⟨holds [] event rest rfl, ih ?_⟩
      rintro first other last rfl
      exact holds (event :: first) other last rfl

theorem of_mem (holds : ∀ event ∈ events, ∀ state, property state event) : Along step property state events := by
  induction events generalizing state with
  | nil => trivial
  | cons event rest ih =>
    exact ⟨holds event List.mem_cons_self state, ih fun other member => holds other (List.mem_cons_of_mem _ member)⟩

theorem of_all (holds : ∀ state event, property state event) : Along step property state events :=
  of_mem fun event _ state => holds state event

theorem initial (holds : Along step property state events) (early : first <+: events) :
    Along step property state first := by
  obtain ⟨last, rfl⟩ := early
  exact (append_iff.mp holds).1

theorem mono (holds : Along step property state events)
    (implies : ∀ state event, property state event → other state event) :
    Along step other state events := by
  induction events generalizing state with
  | nil => trivial
  | cons event rest ih => exact ⟨implies _ _ holds.1, ih holds.2⟩

theorem and (holds : Along step property state events) (also : Along step other state events) :
    Along step (fun state event => property state event ∧ other state event) state events := by
  induction events generalizing state with
  | nil => trivial
  | cons event rest ih => exact ⟨⟨holds.1, also.1⟩, ih holds.2 also.2⟩

/-- The invariant rule: what one permitted event preserves, a permitted run preserves. -/
theorem invariant (kept : σ → Prop) (holds : Along step property state events) (start : kept state)
    (preserved : ∀ state event, kept state → property state event → kept (step state event)) :
    kept (run step state events) := by
  induction events generalizing state with
  | nil => exact start
  | cons event rest ih => exact ih holds.2 (preserved _ _ start holds.1)

/-- An invariant of the permitted run may be used to establish another property of its events. -/
theorem transfer (kept : σ → Prop) (holds : Along step property state events) (start : kept state)
    (preserved : ∀ state event, kept state → property state event → kept (step state event))
    (implies : ∀ state event, kept state → property state event → other state event) :
    Along step other state events := by
  induction events generalizing state with
  | nil => trivial
  | cons event rest ih => exact ⟨implies _ _ start holds.1, ih holds.2 (preserved _ _ start holds.1)⟩

end Along

namespace Throughout
variable {property : σ → Prop} {state : σ} {events : List ε} {event : ε}

theorem start (holds : Throughout step property state events) : property state :=
  holds [] (List.nil_prefix)

theorem final (holds : Throughout step property state events) : property (run step state events) :=
  holds events (List.prefix_refl _)

theorem along (holds : Throughout step property state events) :
    Along step (fun state _ => property state) state events := by
  apply Along.iff_split.mpr
  intro first event last split
  exact holds first ⟨event :: last, split.symm⟩

theorem along_next (holds : Throughout step property state events) :
    Along step (fun state event => property (step state event)) state events := by
  apply Along.iff_split.mpr
  intro first event last split
  rw [← run_nil step (step _ event), ← run_cons, ← run_append]
  exact holds _ ⟨last, by rw [List.append_assoc, split, List.singleton_append]⟩

theorem cons_iff {rest : List ε} : Throughout step property state (event :: rest) ↔
    property state ∧ Throughout step property (step state event) rest := by
  constructor
  · intro holds
    refine ⟨holds.start, fun first early => ?_⟩
    exact holds (event :: first) (List.cons_prefix_cons.mpr ⟨rfl, early⟩)
  · rintro ⟨here, later⟩ first early
    cases first with
    | nil => exact here
    | cons other first =>
      obtain ⟨rfl, inside⟩ := List.cons_prefix_cons.mp early
      exact later first inside

instance decidable (step : σ → ε → σ) (property : σ → Prop) [∀ state, Decidable (property state)] (state : σ) :
    (events : List ε) → Decidable (Throughout step property state events)
  | [] => decidable_of_iff (property state) ⟨fun here _ early => List.prefix_nil.mp early ▸ here, start⟩
  | event :: rest =>
    have := decidable step property (step state event) rest
    decidable_of_iff _ cons_iff.symm

/-- A law that one event preserves exactly under a condition holds throughout a
run exactly when every event of the run meets the condition. `kept` collects what
holds of the run whether or not the law does. -/
theorem iff_along (kept : σ → Prop) {valid condition : σ → ε → Prop}
    (permitted : Along step valid state events) (start : kept state) (law : property state)
    (preserved : ∀ state event, kept state → valid state event → kept (step state event))
    (exact : ∀ state event, kept state → valid state event → property state →
      (property (step state event) ↔ condition state event)) :
    Throughout step property state events ↔ Along step condition state events := by
  induction events generalizing state with
  | nil =>
    refine ⟨fun _ => trivial, fun _ first early => ?_⟩
    rw [List.prefix_nil.mp early]
    exact law
  | cons event rest ih =>
    have one := exact state event start permitted.1 law
    have next := preserved state event start permitted.1
    rw [cons_iff, Along.cons_iff]
    constructor
    · rintro ⟨_, later⟩
      exact ⟨one.mp later.start, (ih permitted.2 next later.start).mp later⟩
    · rintro ⟨met, later⟩
      exact ⟨law, (ih permitted.2 next (one.mpr met)).mpr later⟩

end Throughout

end Trace
