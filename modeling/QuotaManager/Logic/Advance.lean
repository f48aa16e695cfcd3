import QuotaManager.Logic.Workers

/-! One program that is given several turns in a row while the others wait. -/

namespace Program
variable {σ ω ρ : Type} {reply : ρ → Type} {α β : Type} (serve : σ → (request : ρ) → ω → reply request × σ) (outcome : ρ → ω)

theorem bind_assoc {γ : Type} (program : Program ρ reply α) (next : α → Program ρ reply β) (last : β → Program ρ reply γ) :
    (program.bind next).bind last = program.bind fun value => (next value).bind last := by
  induction program with
  | done value => rfl
  | ask request rest ih =>
    rw [ask_bind, ask_bind, ask_bind]
    congr 1
    funext answer
    exact ih answer

/-- What is left of a program, and the environment, after some of its requests. -/
inductive Advances : Program ρ reply α → σ → Program ρ reply α → σ → Prop where
  | refl (program : Program ρ reply α) (world : σ) : Advances program world program world
  | ask {request : ρ} {next : reply request → Program ρ reply α} {world : σ} {later : Program ρ reply α} {after : σ}
    (rest : Advances (next (serve world request (outcome request)).1) (serve world request (outcome request)).2 later after) :
    Advances (.ask request next) world later after

variable {serve outcome}

/-- A program is passed by what it does alone. -/
theorem Advances.exec {program : Program ρ reply α} {next : α → Program ρ reply β} {world : σ} {later : Program ρ reply β} {after : σ}
    (rest : Advances serve outcome (next (program.exec serve outcome world).1) (program.exec serve outcome world).2 later after) :
    Advances serve outcome (program.bind next) world later after := by
  induction program generalizing world with
  | done value => exact rest
  | ask request onward ih => exact .ask (ih _ rest)

end Program

namespace Machine
variable {σ τ κ δ ω ρ : Type} {reply : ρ → Type} (machine : Machine σ τ κ δ ω ρ reply)

/-- Turns of one worker change nothing of the others. -/
theorem run_advances {outcome : ω} {system : System σ τ ρ reply} {index : Nat} {worker : Worker σ τ ρ reply}
    {later : Program ρ reply Unit} {after : σ} (found : system.workers[index]? = some worker)
    (advances : Program.Advances (fun world request outcome => machine.serve world worker.owner request outcome) (fun _ => outcome)
      worker.rest system.world later after) :
    ∃ count past log, Trace.run machine.step system (List.replicate count (.turn index outcome)) =
      ⟨after, system.workers.set index ⟨worker.owner, past, later⟩, log⟩ := by
  obtain ⟨owner, past, rest⟩ := worker
  obtain ⟨world, workers, log⟩ := system
  simp only at found advances ⊢
  induction advances generalizing past workers log with
  | refl program world =>
    refine ⟨0, past, log, ?_⟩
    obtain ⟨inside, here⟩ := List.getElem?_eq_some_iff.mp found
    rw [← here, List.set_getElem_self]
    rfl
  | @ask request next world later after rest ih =>
    obtain ⟨inside, -⟩ := List.getElem?_eq_some_iff.mp found
    have stepped := step_turn machine (show (⟨world, workers, log⟩ : System σ τ ρ reply).workers[index]? = _ from found) rfl outcome
    obtain ⟨count, onward, log, ended⟩ := ih _ (workers.set index _) (_ :: log)
      (List.getElem?_set_self inside)
    refine ⟨count + 1, onward, log, ?_⟩
    rw [List.replicate_succ, Trace.run_cons, stepped]
    simp only
    rw [ended, List.set_set]

/-- A turn of the worker between the others. -/
theorem step_turn_between (world : σ) (before after : List (Worker σ τ ρ reply)) (log : List (Turn σ τ ρ reply))
    {worker : Worker σ τ ρ reply} {request : ρ} {next : reply request → Program ρ reply Unit} (asks : worker.rest = .ask request next)
    (outcome : ω) : ∃ past later, machine.step ⟨world, before ++ worker :: after, log⟩ (.turn before.length outcome) =
      let served := machine.serve world worker.owner request outcome
      ⟨served.2, before ++ ⟨worker.owner, past, next served.1⟩ :: after, later⟩ := by
  let system : System σ τ ρ reply := ⟨world, before ++ worker :: after, log⟩
  have found : system.workers[before.length]? = some worker := by
    simp only [system, List.getElem?_append_right (Nat.le_refl _), Nat.sub_self, List.getElem?_cons_zero]
  have stepped := machine.step_turn found asks outcome
  simp only [system, List.set_append_right _ _ (Nat.le_refl _), Nat.sub_self, List.set_cons_zero] at stepped
  exact ⟨_, _, stepped⟩

/-- Only a start adds a worker. -/
def isStart : Choice τ κ δ ω → Bool
  | .start _ _ => true
  | .turn _ _ | .drift _ => false

theorem run_length (system : System σ τ ρ reply) (choices : List (Choice τ κ δ ω)) :
    (Trace.run machine.step system choices).workers.length = system.workers.length + choices.countP isStart := by
  induction choices generalizing system with
  | nil => rfl
  | cons choice rest ih =>
    rw [Trace.run_cons, ih, List.countP_cons]
    cases choice with
    | start owner task => simp only [step, List.length_append, List.length_singleton, isStart, ↓reduceIte]; omega
    | drift change => simp only [step, isStart, Bool.false_eq_true, ↓reduceIte]; omega
    | turn index outcome =>
      have same : (machine.step system (.turn index outcome)).workers.length = system.workers.length := by
        rcases machine.turn_cases system index outcome with ⟨idle, -⟩ | ⟨worker, request, next, -, -, stepped⟩
        · rw [idle]
        · rw [stepped]
          exact List.length_set
      rw [same]
      simp only [isStart, Bool.false_eq_true, ↓reduceIte]
      omega

end Machine
