import QuotaManager.Logic.Program
import QuotaManager.Logic.Trace

/-! Any number of programs that take turns on one environment. A scheduler starts
programs, gives them turns of one request each, and lets the environment drift. A
discipline says what the requests keep and what an old exchange still tells. -/

/-- The environment and the programs that run on it. An outcome is what is left open
when a request is served. -/
structure Machine (σ τ κ δ ω ρ : Type) (reply : ρ → Type) where
  body : τ → κ → Program ρ reply Unit
  serve : σ → τ → (request : ρ) → ω → reply request × σ
  drift : σ → δ → σ

structure Worker (σ τ ρ : Type) (reply : ρ → Type) where
  owner : τ
  past : List (Exchange σ ρ reply)
  rest : Program ρ reply Unit

/-- Whether a program has not ended yet. -/
def Worker.running {σ τ ρ : Type} {reply : ρ → Type} (worker : Worker σ τ ρ reply) : Bool :=
  match worker.rest with
  | .done _ => false
  | .ask _ _ => true

theorem Worker.running_iff {σ τ ρ : Type} {reply : ρ → Type} {worker : Worker σ τ ρ reply} :
    worker.running = true ↔ ∃ request next, worker.rest = .ask request next := by
  unfold running
  split
  next rest => simp [rest]
  next request next rest => exact iff_of_true rfl ⟨request, next, rest⟩

/-- One served request, with its owner and what this owner's program had seen before. -/
structure Turn (σ τ ρ : Type) (reply : ρ → Type) where
  owner : τ
  past : List (Exchange σ ρ reply)
  exchange : Exchange σ ρ reply

/-- The log lists the served requests, newest first. -/
structure System (σ τ ρ : Type) (reply : ρ → Type) where
  world : σ
  workers : List (Worker σ τ ρ reply)
  log : List (Turn σ τ ρ reply)

inductive Choice (τ κ δ ω : Type) where
  | start (owner : τ) (task : κ)
  | turn (index : Nat) (outcome : ω)
  | drift (change : δ)

namespace Machine
variable {σ τ κ δ ω ρ : Type} {reply : ρ → Type} (machine : Machine σ τ κ δ ω ρ reply)

def turn (system : System σ τ ρ reply) (index : Nat) (outcome : ω) (worker : Worker σ τ ρ reply) :
    System σ τ ρ reply :=
  match worker.rest with
  | .done _ => system
  | .ask request next =>
    let served := machine.serve system.world worker.owner request outcome
    let exchange : Exchange σ ρ reply := ⟨system.world, request, served.1⟩
    { world := served.2
      workers := system.workers.set index ⟨worker.owner, exchange :: worker.past, next served.1⟩
      log := ⟨worker.owner, worker.past, exchange⟩ :: system.log }

/-- A turn given to nobody, or to a program that has ended, does nothing. -/
def step (system : System σ τ ρ reply) : Choice τ κ δ ω → System σ τ ρ reply
  | .start owner task => { system with workers := system.workers ++ [⟨owner, [], machine.body owner task⟩] }
  | .turn index outcome =>
    match system.workers[index]? with
    | none => system
    | some worker => machine.turn system index outcome worker
  | .drift change => { system with world := machine.drift system.world change }

def boot (world : σ) : System σ τ ρ reply := ⟨world, [], []⟩

theorem step_drift (system : System σ τ ρ reply) (change : δ) :
    machine.step system (.drift change) = { system with world := machine.drift system.world change } := rfl

theorem step_turn {system : System σ τ ρ reply} {index : Nat} {worker : Worker σ τ ρ reply} {request : ρ}
    {next : reply request → Program ρ reply Unit} (found : system.workers[index]? = some worker)
    (rest : worker.rest = .ask request next) (outcome : ω) : machine.step system (.turn index outcome) =
      let served := machine.serve system.world worker.owner request outcome
      let exchange : Exchange σ ρ reply := ⟨system.world, request, served.1⟩
      { world := served.2
        workers := system.workers.set index ⟨worker.owner, exchange :: worker.past, next served.1⟩
        log := ⟨worker.owner, worker.past, exchange⟩ :: system.log } := by
  simp only [step, found, turn, rest]

/-- A turn either does nothing or serves one request of one worker. -/
theorem turn_cases (system : System σ τ ρ reply) (index : Nat) (outcome : ω) :
    (machine.step system (.turn index outcome) = system ∧
      ∀ worker request next, system.workers[index]? = some worker → worker.rest ≠ .ask request next) ∨
    ∃ worker request next, system.workers[index]? = some worker ∧ worker.rest = .ask request next ∧
      machine.step system (.turn index outcome) =
        let served := machine.serve system.world worker.owner request outcome
        let exchange : Exchange σ ρ reply := ⟨system.world, request, served.1⟩
        { world := served.2
          workers := system.workers.set index ⟨worker.owner, exchange :: worker.past, next served.1⟩
          log := ⟨worker.owner, worker.past, exchange⟩ :: system.log } := by
  simp only [step]
  cases found : system.workers[index]? with
  | none => exact .inl ⟨rfl, nofun⟩
  | some worker =>
    cases rest : worker.rest with
    | done value =>
      refine .inl ⟨by simp only [turn, rest], ?_⟩
      rintro _ request next same asking
      cases same
      rw [rest] at asking
      cases asking
    | ask request next => exact .inr ⟨worker, request, next, rfl, rest, by simp only [turn, rest]⟩

/-- A turn replaces one worker, which counts at most for itself. -/
theorem countP_turn {system : System σ τ ρ reply} {index : Nat} {worker : Worker σ τ ρ reply}
    (found : system.workers[index]? = some worker) (after : Worker σ τ ρ reply) (counts : Worker σ τ ρ reply → Bool) :
    (system.workers.set index after).countP counts + (if counts worker then 1 else 0) =
      system.workers.countP counts + if counts after then 1 else 0 := by
  obtain ⟨inside, here⟩ := List.getElem?_eq_some_iff.mp found
  rw [List.countP_set inside, here]
  by_cases counted : counts worker = true
  · have := List.one_le_countP_iff.mpr ⟨worker, List.mem_of_getElem? found, counted⟩
    simp only [counted, ↓reduceIte]
    omega
  · simp only [counted, Bool.false_eq_true, ↓reduceIte, Nat.add_zero, Nat.sub_zero]

/-- A turn that brings nobody in leaves no more of them. -/
theorem countP_turn_le {system : System σ τ ρ reply} {index : Nat} {worker : Worker σ τ ρ reply}
    (found : system.workers[index]? = some worker) {after : Worker σ τ ρ reply} {counts : Worker σ τ ρ reply → Bool}
    (before : counts after = true → counts worker = true) :
    (system.workers.set index after).countP counts ≤ system.workers.countP counts := by
  have replaced := countP_turn found after counts
  by_cases counted : counts after = true
  · rw [if_pos counted, if_pos (before counted)] at replaced
    exact Nat.le_of_eq (Nat.add_right_cancel replaced)
  · rw [if_neg counted, Nat.add_zero] at replaced
    exact Nat.le_of_add_right_le (Nat.le_of_eq replaced)

/-- What the programs of a machine keep. `allowed`, `served` and `drifts` say which
choices are made at all; `sound` is an invariant of the environment, `rule` what a
program may ask, and `told` what an exchange tells about every later environment. -/
structure Discipline where
  allowed : τ → κ → Prop
  served : σ → ρ → ω → Prop
  drifts : σ → δ → Prop
  sound : σ → Prop
  rule : τ → List (Exchange σ ρ reply) → ρ → Prop
  told : τ → Exchange σ ρ reply → σ → Prop
  obeys : ∀ owner task, allowed owner task → (machine.body owner task).Obeys (rule owner) (fun _ _ => True) []
  serving : ∀ world owner past request outcome, sound world → (∀ exchange ∈ past, told owner exchange world) →
    rule owner past request → served world request outcome →
    sound (machine.serve world owner request outcome).2 ∧
      told owner ⟨world, request, (machine.serve world owner request outcome).1⟩
        (machine.serve world owner request outcome).2 ∧
      ∀ other exchange, told other exchange world → told other exchange (machine.serve world owner request outcome).2
  drifting : ∀ world change, sound world → drifts world change → sound (machine.drift world change) ∧
    ∀ owner exchange, told owner exchange world → told owner exchange (machine.drift world change)

namespace Discipline
variable {machine} (discipline : Discipline machine)

/-- The choices that a discipline is about. -/
def Valid (system : System σ τ ρ reply) : Choice τ κ δ ω → Prop
  | .start owner task => discipline.allowed owner task
  | .turn index outcome => ∀ worker request next, system.workers[index]? = some worker →
      worker.rest = .ask request next → discipline.served system.world request outcome
  | .drift change => discipline.drifts system.world change

structure KeptBy (system : System σ τ ρ reply) (worker : Worker σ τ ρ reply) : Prop where
  obeys : worker.rest.Obeys (discipline.rule worker.owner) (fun _ _ => True) worker.past
  told : ∀ exchange ∈ worker.past, discipline.told worker.owner exchange system.world

/-- What was true when a request was served. -/
structure Recorded (turn : Turn σ τ ρ reply) : Prop where
  sound : discipline.sound turn.exchange.state
  told : ∀ exchange ∈ turn.past, discipline.told turn.owner exchange turn.exchange.state
  ruled : discipline.rule turn.owner turn.past turn.exchange.request
  answered : ∃ outcome, discipline.served turn.exchange.state turn.exchange.request outcome ∧
    turn.exchange.answer = (machine.serve turn.exchange.state turn.owner turn.exchange.request outcome).1

structure Kept (system : System σ τ ρ reply) : Prop where
  sound : discipline.sound system.world
  workers : ∀ worker ∈ system.workers, discipline.KeptBy system worker
  log : ∀ turn ∈ system.log, discipline.Recorded turn

variable {discipline}

theorem Kept.step {system : System σ τ ρ reply} (kept : discipline.Kept system) {choice : Choice τ κ δ ω}
    (valid : discipline.Valid system choice) : discipline.Kept (machine.step system choice) := by
  cases choice with
  | start owner task =>
    refine ⟨kept.sound, ?_, kept.log⟩
    intro worker member
    rcases List.mem_append.mp member with old | new
    · exact ⟨(kept.workers worker old).obeys, (kept.workers worker old).told⟩
    · obtain rfl := List.mem_singleton.mp new
      exact ⟨discipline.obeys owner task valid, fun _ impossible => absurd impossible List.not_mem_nil⟩
  | drift change =>
    obtain ⟨sound, later⟩ := discipline.drifting system.world change kept.sound valid
    refine ⟨sound, ?_, kept.log⟩
    intro worker member
    have before := kept.workers worker member
    exact ⟨before.obeys, fun exchange seen => later _ _ (before.told exchange seen)⟩
  | turn index outcome =>
    rcases machine.turn_cases system index outcome with ⟨idle, _⟩ | ⟨worker, request, next, found, rest, stepped⟩
    · rw [idle]
      exact kept
    · have before := kept.workers worker (List.mem_of_getElem? found)
      have obeys := before.obeys
      rw [rest] at obeys
      have served := valid worker request next found rest
      obtain ⟨sound, fresh, later⟩ :=
        discipline.serving system.world worker.owner worker.past request outcome kept.sound before.told obeys.1 served
      rw [stepped]
      refine ⟨sound, ?_, ?_⟩
      · intro other member
        rcases List.mem_or_eq_of_mem_set member with old | rfl
        · have unchanged := kept.workers other old
          exact ⟨unchanged.obeys, fun exchange seen => later _ _ (unchanged.told exchange seen)⟩
        · refine ⟨obeys.2 _ _, ?_⟩
          intro exchange seen
          rcases List.mem_cons.mp seen with rfl | seen
          · exact fresh
          · exact later _ _ (before.told exchange seen)
      · intro turn member
        rcases List.mem_cons.mp member with rfl | old
        · exact ⟨kept.sound, before.told, obeys.1, outcome, served, rfl⟩
        · exact kept.log turn old

theorem Kept.boot {world : σ} (sound : discipline.sound world) : discipline.Kept (Machine.boot world) :=
  ⟨sound, fun _ impossible => absurd impossible List.not_mem_nil, fun _ impossible => absurd impossible List.not_mem_nil⟩

variable (discipline) in
/-- The run rule: from a sound start, whatever valid choices are made. -/
theorem Kept.run {world : σ} (sound : discipline.sound world) {choices : List (Choice τ κ δ ω)}
    (valid : Trace.Along machine.step discipline.Valid (Machine.boot world) choices) :
    discipline.Kept (Trace.run machine.step (Machine.boot world) choices) :=
  valid.invariant discipline.Kept (Kept.boot sound) fun _ _ kept valid => kept.step valid

variable (discipline) in
/-- The rule for a program that runs alone, every request with its own outcome. -/
theorem exec_sound {α : Type} {owner : τ} {program : Program ρ reply α} {goal : α → List (Exchange σ ρ reply) → Prop}
    {past : List (Exchange σ ρ reply)} (obeys : program.Obeys (discipline.rule owner) goal past) {outcome : ρ → ω}
    (served : ∀ world request, discipline.served world request (outcome request)) {world : σ} (sound : discipline.sound world)
    (told : ∀ exchange ∈ past, discipline.told owner exchange world) :
    discipline.sound (program.exec (fun world request => machine.serve world owner request) outcome world).2 := by
  induction program generalizing past world with
  | done value => exact sound
  | ask request next ih =>
    obtain ⟨kept, fresh, later⟩ := discipline.serving world owner past request _ sound told obeys.1 (served world request)
    refine ih _ (obeys.2 world _) kept ?_
    intro exchange seen
    rcases List.mem_cons.mp seen with rfl | seen
    · exact fresh
    · exact later _ _ (told exchange seen)

end Discipline

end Machine
