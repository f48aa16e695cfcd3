import QuotaManager.Logic.Program

/-! Programs that run alone while every request has an outcome of its own, whichever
comes. A run is the list of its requests with their outcomes, in their order. -/

namespace Program
variable {σ ω ρ : Type} {reply : ρ → Type} {α β : Type}

inductive Ends (serve : σ → (request : ρ) → ω → reply request × σ) :
    Program ρ reply α → σ → List (ρ × ω) → α → σ → Prop where
  | done {value : α} {world : σ} : Ends serve (.done value) world [] value world
  | ask {request : ρ} {next : reply request → Program ρ reply α} {world later : σ} {value : α} {turns : List (ρ × ω)}
    (outcome : ω)
    (rest : Ends serve (next (serve world request outcome).1) (serve world request outcome).2 turns value later) :
    Ends serve (.ask request next) world ((request, outcome) :: turns) value later

variable {serve : σ → (request : ρ) → ω → reply request × σ} {world later : σ} {turns : List (ρ × ω)}

theorem ends_done {value result : α} :
    Ends serve (.done value : Program ρ reply α) world turns result later ↔ turns = [] ∧ result = value ∧ later = world := by
  constructor
  · intro ended
    cases ended
    exact ⟨rfl, rfl, rfl⟩
  · rintro ⟨rfl, rfl, rfl⟩
    exact .done

theorem ends_ask {request : ρ} {next : reply request → Program ρ reply α} {result : α} :
    Ends serve (.ask request next) world turns result later ↔
      ∃ outcome rest, turns = (request, outcome) :: rest ∧
        Ends serve (next (serve world request outcome).1) (serve world request outcome).2 rest result later := by
  constructor
  · intro ended
    cases ended with
    | ask outcome rest => exact ⟨outcome, _, rfl, rest⟩
  · rintro ⟨outcome, rest, rfl, ended⟩
    exact .ask outcome ended

theorem ends_call {request : ρ} {next : reply request → Program ρ reply α} {result : α} :
    Ends serve (call request >>= next) world turns result later ↔
      ∃ outcome rest, turns = (request, outcome) :: rest ∧
        Ends serve (next (serve world request outcome).1) (serve world request outcome).2 rest result later :=
  ends_ask

/-- A run of a sequence is a run of its first part and then one of the second. -/
theorem ends_bind {program : Program ρ reply α} {next : α → Program ρ reply β} {result : β} :
    Ends serve (program >>= next) world turns result later ↔
      ∃ first value middle second, turns = first ++ second ∧ Ends serve program world first value middle ∧
        Ends serve (next value) middle second result later := by
  induction program generalizing world turns with
  | done value =>
    simp only [bind_eq, done_bind, ends_done]
    constructor
    · intro ended
      exact ⟨[], value, world, turns, rfl, ⟨rfl, rfl, rfl⟩, ended⟩
    · rintro ⟨_, _, _, _, rfl, ⟨rfl, rfl, rfl⟩, ended⟩
      exact ended
  | ask request rest ih =>
    simp only [bind_eq, ask_bind, ends_ask] at ih ⊢
    simp only [ih]
    constructor
    · rintro ⟨outcome, _, rfl, first, value, middle, second, rfl, early, late⟩
      exact ⟨(request, outcome) :: first, value, middle, second, rfl, ⟨outcome, first, rfl, early⟩, late⟩
    · rintro ⟨_, value, middle, second, rfl, ⟨outcome, first, rfl, early⟩, late⟩
      exact ⟨outcome, first ++ second, rfl, first, value, middle, second, rfl, early, late⟩

/-- What allowed requests keep, a program that makes no others keeps. -/
theorem Asks.ends_kept {allowed : ρ → Prop} {program : Program ρ reply α} (asks : program.Asks allowed) (kept : σ → Prop)
    (preserved : ∀ world request outcome, allowed request → kept world → kept (serve world request outcome).2)
    {result : α} (ended : Ends serve program world turns result later) (start : kept world) : kept later := by
  induction ended with
  | done => exact start
  | ask outcome _ ih => exact ih (asks.2 _) (preserved _ _ outcome asks.1 start)

/-- A run in which the outcome of a request depends on the request alone. -/
theorem ends_exec (program : Program ρ reply α) (outcome : ρ → ω) (world : σ) :
    ∃ turns, Ends serve program world turns (program.exec serve outcome world).1 (program.exec serve outcome world).2 ∧
      ∀ turn ∈ turns, turn.2 = outcome turn.1 := by
  induction program generalizing world with
  | done value => exact ⟨[], .done, fun _ impossible => absurd impossible List.not_mem_nil⟩
  | ask request next ih =>
    obtain ⟨turns, ended, same⟩ := ih (serve world request (outcome request)).1 (serve world request (outcome request)).2
    refine ⟨(request, outcome request) :: turns, .ask _ ended, ?_⟩
    intro turn member
    rcases List.mem_cons.mp member with rfl | later
    · rfl
    · exact same turn later

section play
variable (serve)

/-- Runs a program alone; its requests have the outcomes of the sequence, one after the other. -/
def play : Program ρ reply α → (Nat → ω) → σ → α × σ
  | .done value, _, world => (value, world)
  | .ask request next, outcomes, world =>
    let served := serve world request (outcomes 0)
    (next served.1).play (fun turn => outcomes (turn + 1)) served.2

variable {serve}

/-- What every request keeps, every program keeps. -/
theorem play_kept (program : Program ρ reply α) (kept : σ → Prop)
    (preserved : ∀ world request outcome, kept world → kept (serve world request outcome).2) (outcomes : Nat → ω)
    (start : kept world) : kept (program.play serve outcomes world).2 := by
  induction program generalizing outcomes world with
  | done value => exact start
  | ask request next ih => exact ih _ _ (preserved world request _ start)

end play

section translate
variable {ρ' : Type} {reply' : ρ' → Type} {inject : ρ → ρ'} {answer : ∀ request, reply' (inject request) → reply request}
  {serve' : σ → (request : ρ') → ω → reply' request × σ}

/-- The larger environment serves the old requests as the old one does. -/
theorem ends_translate
    (same : ∀ world request outcome, answer request (serve' world (inject request) outcome).1 = (serve world request outcome).1 ∧
      (serve' world (inject request) outcome).2 = (serve world request outcome).2)
    {program : Program ρ reply α} {turns : List (ρ' × ω)} {result : α} :
    Ends serve' (program.translate inject answer) world turns result later ↔
      ∃ before, turns = before.map (fun turn => (inject turn.1, turn.2)) ∧ Ends serve program world before result later := by
  induction program generalizing world turns with
  | done value =>
    simp only [translate, ends_done]
    constructor
    · rintro ⟨rfl, rfl, rfl⟩
      exact ⟨[], rfl, rfl, rfl, rfl⟩
    · rintro ⟨_, rfl, rfl, rfl, rfl⟩
      exact ⟨rfl, rfl, rfl⟩
  | ask request next ih =>
    simp only [translate, ends_ask, ih, same]
    constructor
    · rintro ⟨outcome, _, rfl, before, rfl, ended⟩
      exact ⟨(request, outcome) :: before, rfl, outcome, before, rfl, ended⟩
    · rintro ⟨_, rfl, outcome, before, rfl, ended⟩
      exact ⟨outcome, before.map _, rfl, before, rfl, ended⟩

end translate

end Program
