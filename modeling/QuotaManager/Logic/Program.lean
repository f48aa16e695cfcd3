import Mathlib.Data.List.Infix

/-! Programs that act on a shared environment through requests. What a program may
ask is a rule about the requests it made before and the replies it got; the rule is
checked once for each program, whatever the environment replies. -/

/-- A value, or a request and what to do with its reply. -/
inductive Program (ρ : Type) (reply : ρ → Type) (α : Type) where
  | done (value : α)
  | ask (request : ρ) (next : reply request → Program ρ reply α)

/-- A request that was made: the state it met and the reply it got. -/
structure Exchange (σ ρ : Type) (reply : ρ → Type) where
  state : σ
  request : ρ
  answer : reply request

namespace Program
variable {ρ : Type} {reply : ρ → Type} {α β : Type}

def bind : Program ρ reply α → (α → Program ρ reply β) → Program ρ reply β
  | .done value, next => next value
  | .ask request rest, next => .ask request fun answer => (rest answer).bind next

instance : Monad (Program ρ reply) where
  pure := .done
  bind := bind

def call (request : ρ) : Program ρ reply (reply request) := .ask request .done

@[simp] theorem pure_eq (value : α) : (pure value : Program ρ reply α) = .done value := rfl

@[simp] theorem bind_eq (program : Program ρ reply α) (next : α → Program ρ reply β) :
    (program >>= next) = program.bind next := rfl

@[simp] theorem done_bind (value : α) (next : α → Program ρ reply β) : (done value).bind next = next value := rfl

@[simp] theorem ask_bind (request : ρ) (rest : reply request → Program ρ reply α) (next : α → Program ρ reply β) :
    (ask request rest).bind next = .ask request fun answer => (rest answer).bind next := rfl

@[simp] theorem call_bind (request : ρ) (next : reply request → Program ρ reply β) :
    (call request).bind next = .ask request next := rfl

section Obeys
variable {σ : Type}

/-- Every request that the program can come to make keeps the rule, and its result
satisfies the goal; both may depend on the exchanges so far, newest first. -/
def Obeys (rule : List (Exchange σ ρ reply) → ρ → Prop) (goal : α → List (Exchange σ ρ reply) → Prop) :
    Program ρ reply α → List (Exchange σ ρ reply) → Prop
  | .done value, past => goal value past
  | .ask request next, past =>
    rule past request ∧ ∀ state answer, (next answer).Obeys rule goal (⟨state, request, answer⟩ :: past)

variable {rule : List (Exchange σ ρ reply) → ρ → Prop} {goal other : α → List (Exchange σ ρ reply) → Prop}
  {past : List (Exchange σ ρ reply)} {program : Program ρ reply α}

@[simp] theorem obeys_done {value : α} : (done value).Obeys rule goal past ↔ goal value past := .rfl

@[simp] theorem obeys_ask {request : ρ} {next : reply request → Program ρ reply α} :
    (ask request next).Obeys rule goal past ↔
      rule past request ∧ ∀ state answer, (next answer).Obeys rule goal (⟨state, request, answer⟩ :: past) := .rfl

theorem Obeys.mono (obeys : program.Obeys rule goal past) (implies : ∀ value past, goal value past → other value past) :
    program.Obeys rule other past := by
  induction program generalizing past with
  | done value => exact implies _ _ obeys
  | ask request next ih => exact ⟨obeys.1, fun state answer => ih answer (obeys.2 state answer)⟩

/-- The rule of composition: the second part starts from what the first one reached. -/
theorem Obeys.bind {next : α → Program ρ reply β} {result : β → List (Exchange σ ρ reply) → Prop}
    (obeys : program.Obeys rule goal past)
    (onward : ∀ value later, goal value later → (next value).Obeys rule result later) :
    (program.bind next).Obeys rule result past := by
  induction program generalizing past with
  | done value => exact onward _ _ obeys
  | ask request rest ih => exact ⟨obeys.1, fun state answer => ih answer (obeys.2 state answer)⟩

/-- Two rules of one program may be checked apart. -/
theorem Obeys.and {second : List (Exchange σ ρ reply) → ρ → Prop} (obeys : program.Obeys rule goal past)
    (also : program.Obeys second other past) :
    program.Obeys (fun past request => rule past request ∧ second past request)
      (fun value past => goal value past ∧ other value past) past := by
  induction program generalizing past with
  | done value => exact ⟨obeys, also⟩
  | ask request next ih =>
    exact ⟨⟨obeys.1, also.1⟩, fun state answer => ih answer (obeys.2 state answer) (also.2 state answer)⟩

end Obeys

section Asks
variable {allowed : ρ → Prop}

/-- Every request that the program can come to make is allowed. -/
def Asks (allowed : ρ → Prop) : Program ρ reply α → Prop
  | .done _ => True
  | .ask request next => allowed request ∧ ∀ answer, (next answer).Asks allowed

theorem Asks.bind {program : Program ρ reply α} {next : α → Program ρ reply β} (asks : program.Asks allowed)
    (onward : ∀ value, (next value).Asks allowed) : (program.bind next).Asks allowed := by
  induction program with
  | done value => exact onward value
  | ask request rest ih => exact ⟨asks.1, fun answer => ih answer (asks.2 answer)⟩

end Asks

section exec
variable {σ ω : Type} (serve : σ → (request : ρ) → ω → reply request × σ) (outcome : ρ → ω)

/-- Runs a program alone, every request with the outcome that is fixed for it. -/
def exec : Program ρ reply α → σ → α × σ
  | .done value, world => (value, world)
  | .ask request next, world =>
    let served := serve world request (outcome request)
    (next served.1).exec served.2

@[simp] theorem exec_done (value : α) (world : σ) : (done value : Program ρ reply α).exec serve outcome world = (value, world) := rfl

theorem exec_ask (request : ρ) (next : reply request → Program ρ reply α) (world : σ) :
    (ask request next).exec serve outcome world =
      (next (serve world request (outcome request)).1).exec serve outcome (serve world request (outcome request)).2 := rfl

@[simp] theorem exec_bind (program : Program ρ reply α) (next : α → Program ρ reply β) (world : σ) :
    (program.bind next).exec serve outcome world =
      (next (program.exec serve outcome world).1).exec serve outcome (program.exec serve outcome world).2 := by
  induction program generalizing world with
  | done value => rfl
  | ask request rest ih => exact ih _ _

variable {serve outcome} in
/-- What allowed requests keep, a program that makes no others keeps. -/
theorem Asks.exec_kept {allowed : ρ → Prop} {program : Program ρ reply α} (asks : program.Asks allowed) (kept : σ → Prop)
    (preserved : ∀ world request, allowed request → kept world → kept (serve world request (outcome request)).2)
    {world : σ} (start : kept world) : kept (program.exec serve outcome world).2 := by
  induction program generalizing world with
  | done value => exact start
  | ask request next ih => exact ih _ (asks.2 _) (preserved world request asks.1 start)

variable {serve outcome} in
/-- What every request keeps, every program keeps. -/
theorem exec_kept (program : Program ρ reply α) (kept : σ → Prop)
    (preserved : ∀ world request, kept world → kept (serve world request (outcome request)).2) {world : σ} (start : kept world) :
    kept (program.exec serve outcome world).2 := by
  induction program generalizing world with
  | done value => exact start
  | ask request next ih => exact ih _ (preserved world request start)

end exec

section requests
variable {σ ω : Type} (serve : σ → (request : ρ) → ω → reply request × σ) (outcome : ρ → ω)

/-- What a program asks for when it runs alone, in order. -/
def requests : Program ρ reply α → σ → List ρ
  | .done _, _ => []
  | .ask request next, world =>
    let served := serve world request (outcome request)
    request :: (next served.1).requests served.2

theorem requests_bind (program : Program ρ reply α) (next : α → Program ρ reply β) (world : σ) :
    (program >>= next).requests serve outcome world = program.requests serve outcome world ++
      (next (program.exec serve outcome world).1).requests serve outcome (program.exec serve outcome world).2 := by
  induction program generalizing world with
  | done value => rfl
  | ask request rest ih => exact congrArg (request :: ·) (ih _ _)

variable {serve outcome} in
theorem Asks.requests {allowed : ρ → Prop} {program : Program ρ reply α} (asks : program.Asks allowed) {world : σ} :
    ∀ request ∈ program.requests serve outcome world, allowed request := by
  induction program generalizing world with
  | done value => exact fun _ impossible => absurd impossible List.not_mem_nil
  | ask request next ih =>
    intro other member
    rcases List.mem_cons.mp member with rfl | later
    · exact asks.1
    · exact ih _ (asks.2 _) _ later

end requests

section translate
variable {ρ' : Type} {reply' : ρ' → Type}

/-- A program over a larger set of requests. -/
def translate (inject : ρ → ρ') (answer : ∀ request, reply' (inject request) → reply request) :
    Program ρ reply α → Program ρ' reply' α
  | .done value => .done value
  | .ask request next => .ask (inject request) fun reply => (next (answer request reply)).translate inject answer

variable {inject : ρ → ρ'} {answer : ∀ request, reply' (inject request) → reply request}

/-- The larger environment serves the old requests as the old one does. -/
theorem exec_translate {σ ω ω' : Type} {serve : σ → (request : ρ) → ω → reply request × σ}
    {serve' : σ → (request : ρ') → ω' → reply' request × σ} {outcome : ρ → ω} {outcome' : ρ' → ω'}
    (same : ∀ world request, answer request (serve' world (inject request) (outcome' (inject request))).1 =
        (serve world request (outcome request)).1 ∧
      (serve' world (inject request) (outcome' (inject request))).2 = (serve world request (outcome request)).2)
    (program : Program ρ reply α) (world : σ) :
    (program.translate inject answer).exec serve' outcome' world = program.exec serve outcome world := by
  induction program generalizing world with
  | done value => rfl
  | ask request next ih =>
    obtain ⟨replied, moved⟩ := same world request
    simp only [translate, exec_ask, replied, moved]
    exact ih _ _

/-- The larger environment has a view that the old one serves alike. -/
theorem exec_translate_view {σ σ' ω ω' : Type} (view : σ' → σ) {serve : σ → (request : ρ) → ω → reply request × σ}
    {serve' : σ' → (request : ρ') → ω' → reply' request × σ'} {outcome : ρ → ω} {outcome' : ρ' → ω'}
    (same : ∀ world request, answer request (serve' world (inject request) (outcome' (inject request))).1 =
        (serve (view world) request (outcome request)).1 ∧
      view (serve' world (inject request) (outcome' (inject request))).2 = (serve (view world) request (outcome request)).2)
    (program : Program ρ reply α) (world : σ') :
    ((program.translate inject answer).exec serve' outcome' world).1 = (program.exec serve outcome (view world)).1 ∧
      view ((program.translate inject answer).exec serve' outcome' world).2 = (program.exec serve outcome (view world)).2 := by
  induction program generalizing world with
  | done value => exact ⟨rfl, rfl⟩
  | ask request next ih =>
    obtain ⟨replied, moved⟩ := same world request
    simp only [translate, exec_ask, replied, ← moved]
    exact ih _ _

theorem requests_translate {σ ω ω' : Type} {serve : σ → (request : ρ) → ω → reply request × σ}
    {serve' : σ → (request : ρ') → ω' → reply' request × σ} {outcome : ρ → ω} {outcome' : ρ' → ω'}
    (same : ∀ world request, answer request (serve' world (inject request) (outcome' (inject request))).1 =
        (serve world request (outcome request)).1 ∧
      (serve' world (inject request) (outcome' (inject request))).2 = (serve world request (outcome request)).2)
    (program : Program ρ reply α) (world : σ) :
    (program.translate inject answer).requests serve' outcome' world =
      (program.requests serve outcome world).map inject := by
  induction program generalizing world with
  | done value => rfl
  | ask request next ih =>
    obtain ⟨replied, moved⟩ := same world request
    simp only [translate, requests, replied, moved, List.map_cons]
    exact congrArg (inject request :: ·) (ih _ _)

end translate

end Program
