import QuotaManager.CachedPodResolver

/-! Answers after an invalidation. An answer that was on its way to the cache when its
pod was invalidated is stored all the same; without such stores no answer is stale. -/

namespace QuotaManager
open CachedPodResolver

abbrev ResolverTurn := Turn CachedPodResolver Unit CacheRequest CacheRequest.Reply

abbrev ResolverSystem := System CachedPodResolver Unit CacheRequest CacheRequest.Reply

abbrev CacheExchange := Exchange CachedPodResolver CacheRequest CacheRequest.Reply

abbrev ResolverChoice := Choice Unit ResolverCall (String × Option (List CgroupInfo)) Unit

/-- A call that began after an invalidation of its pod has only returned what the
underlying resolver answered for the pod after this invalidation. -/
def NoneStale (log : List ResolverTurn) : Prop :=
  ∀ invalidated ∈ log, ∀ answered ∈ log, ∀ began ∈ answered.past, ∀ podUID info,
    invalidated.exchange.request = .delete podUID → answered.exchange.request = .answer podUID (some info) →
    began.request = .lookup podUID → invalidated.exchange.state.clock < began.state.clock →
    ∃ given ∈ log, ∃ state, given.exchange = ⟨state, .underlying podUID, some info⟩ ∧
      invalidated.exchange.state.clock < state.clock

/-- An answer is stored only if its pod has not been invalidated since it was given. -/
def Timely (system : ResolverSystem) : ResolverChoice → Prop
  | .turn index _ =>
    match system.workers[index]? with
    | some ⟨_, past, .ask (.store podUID _) _⟩ =>
      ∀ given ∈ past, given.request = .underlying podUID → ∀ invalidated ∈ system.log,
        invalidated.exchange.request = .delete podUID → invalidated.exchange.state.clock < given.state.clock
    | _ => True
  | _ => True

instance (system : ResolverSystem) (choice : ResolverChoice) : Decidable (Timely system choice) := by
  unfold Timely
  split
  · split <;> infer_instance
  · infer_instance

/-- Some answer for the pod follows all invalidations from before a moment. -/
def Follows (log : List ResolverTurn) (podUID : String) (info : List CgroupInfo) (moment : Nat) : Prop :=
  ∃ given ∈ log, ∃ state, given.exchange = ⟨state, .underlying podUID, some info⟩ ∧
    ∀ invalidated ∈ log, invalidated.exchange.request = .delete podUID → invalidated.exchange.state.clock < moment →
      invalidated.exchange.state.clock < state.clock

/-- What a call asks, by what it has seen. -/
def CacheRequest.Rule (past : List CacheExchange) : CacheRequest → Prop
  | .lookup _ | .delete _ => True
  | .underlying podUID => ∃ began, past = [⟨began, .lookup podUID, none⟩]
  | .store podUID info => ∃ began given, past = [⟨given, .underlying podUID, some info⟩, ⟨began, .lookup podUID, none⟩]
  | .answer _ none => True
  | .answer podUID (some info) => (∃ began, past = [⟨began, .lookup podUID, some info⟩]) ∨
    ∃ began given stored, past = [⟨stored, .store podUID info, ()⟩, ⟨given, .underlying podUID, some info⟩,
      ⟨began, .lookup podUID, none⟩]

theorem ResolverCall.obeys (call : ResolverCall) : call.body.Obeys (fun past request => request.Rule past) (fun _ _ => True) [] := by
  cases call with
  | invalidate podUID => exact ⟨trivial, fun _ _ => trivial⟩
  | resolve podUID =>
    refine ⟨trivial, fun began cached => ?_⟩
    cases cached with
    | some info => exact ⟨.inl ⟨began, rfl⟩, fun _ _ => trivial⟩
    | none =>
      refine ⟨⟨began, rfl⟩, fun given answer => ?_⟩
      cases answer with
      | none => exact ⟨trivial, fun _ _ => trivial⟩
      | some info => exact ⟨⟨began, given, rfl⟩, fun stored _ => ⟨.inr ⟨began, given, stored, rfl⟩, fun _ _ => trivial⟩⟩

section answers
variable {log : List ResolverTurn} {turn : ResolverTurn} {podUID : String} {info : List CgroupInfo} {moment : Nat}

theorem Follows.earlier (following : Follows log podUID info moment) {before : Nat} (earlier : before ≤ moment) :
    Follows log podUID info before := by
  obtain ⟨given, member, state, exchanged, follows⟩ := following
  refine ⟨given, member, state, exchanged, fun invalidated listed deletes sooner => ?_⟩
  exact follows invalidated listed deletes (Nat.lt_of_lt_of_le sooner earlier)

/-- What is served at or after the moment changes nothing about it. -/
theorem Follows.grown (following : Follows log podUID info moment) (later : moment ≤ turn.exchange.state.clock) :
    Follows (turn :: log) podUID info moment := by
  obtain ⟨given, member, state, exchanged, follows⟩ := following
  refine ⟨given, List.mem_cons_of_mem _ member, state, exchanged, fun invalidated listed deletes sooner => ?_⟩
  rcases List.mem_cons.mp listed with rfl | old
  · omega
  · exact follows invalidated old deletes sooner

/-- While the pod is not invalidated, no time passes for its answers. -/
theorem Follows.undisturbed (following : Follows log podUID info moment) (before : ∀ turn ∈ log, turn.exchange.state.clock < moment)
    (keeps : turn.exchange.request ≠ .delete podUID) (later : Nat) : Follows (turn :: log) podUID info later := by
  obtain ⟨given, member, state, exchanged, follows⟩ := following
  refine ⟨given, List.mem_cons_of_mem _ member, state, exchanged, fun invalidated listed deletes _ => ?_⟩
  rcases List.mem_cons.mp listed with rfl | old
  · exact absurd deletes keeps
  · exact follows invalidated old deletes (before invalidated old)

/-- An answer follows what came before it. -/
theorem Follows.self {state : CachedPodResolver} (member : turn ∈ log) (exchanged : turn.exchange = ⟨state, .underlying podUID, some info⟩) :
    Follows log podUID info state.clock :=
  ⟨turn, member, state, exchanged, fun _ _ _ sooner => sooner⟩

end answers

structure ResolverKept (system : ResolverSystem) : Prop where
  clock : ∀ turn ∈ system.log, turn.exchange.state.clock < system.world.clock
  past : ∀ turn ∈ system.log, ∀ exchange ∈ turn.past, exchange.state.clock < turn.exchange.state.clock
  cached : ∀ podUID info, system.world.cache podUID = some info → Follows system.log podUID info system.world.clock
  found : ∀ turn ∈ system.log, ∀ state podUID info, turn.exchange = ⟨state, .lookup podUID, some info⟩ →
    Follows system.log podUID info state.clock
  answered : ∀ turn ∈ system.log, ∀ podUID info, turn.exchange.request = .answer podUID (some info) →
    ∀ began ∈ turn.past, began.request = .lookup podUID → Follows system.log podUID info began.state.clock
  obeys : ∀ worker ∈ system.workers, worker.rest.Obeys (fun past request => request.Rule past) (fun _ _ => True) worker.past
  logged : ∀ worker ∈ system.workers, ∀ exchange ∈ worker.past, ∃ turn ∈ system.log, turn.exchange = exchange
  ordered : ∀ worker ∈ system.workers, worker.past.Pairwise fun late early => early.state.clock < late.state.clock

theorem serve_clock (resolver : CachedPodResolver) (request : CacheRequest) : (resolver.serve request).2.clock = resolver.clock + 1 := by
  cases request <;> rfl

/-- What is cached after a request was cached before, or has just been stored. -/
theorem serve_cache {resolver : CachedPodResolver} {request : CacheRequest} {podUID : String} {info : List CgroupInfo}
    (cached : (resolver.serve request).2.cache podUID = some info) :
    (resolver.cache podUID = some info ∧ request ≠ .delete podUID) ∨ request = .store podUID info := by
  cases request with
  | lookup | underlying | answer => exact .inl ⟨cached, nofun⟩
  | store other stored =>
    by_cases here : podUID = other
    · subst here
      dsimp only [serve] at cached
      rw [Function.update_self] at cached
      obtain rfl := Option.some.inj cached
      exact .inr rfl
    · dsimp only [serve] at cached
      rw [Function.update_of_ne here] at cached
      exact .inl ⟨cached, nofun⟩
  | delete other =>
    by_cases here : podUID = other
    · subst here
      dsimp only [serve] at cached
      rw [Function.update_self] at cached
      cases cached
    · dsimp only [serve] at cached
      rw [Function.update_of_ne here] at cached
      refine .inl ⟨cached, ?_⟩
      intro same
      exact here (CacheRequest.delete.inj same).symm

namespace ResolverKept
variable {system : ResolverSystem} {worker : Worker CachedPodResolver Unit CacheRequest CacheRequest.Reply}

theorem earlier (kept : ResolverKept system) (member : worker ∈ system.workers) :
    ∀ seen ∈ worker.past, seen.state.clock < system.world.clock := by
  intro seen inside
  obtain ⟨turn, listed, rfl⟩ := kept.logged worker member seen inside
  exact kept.clock turn listed

/-- An answer that is stored in time was given after all invalidations so far. -/
theorem stores (kept : ResolverKept system) (member : worker ∈ system.workers) {podUID : String} {info : List CgroupInfo}
    (ruled : (CacheRequest.store podUID info).Rule worker.past)
    (timely : ∀ given ∈ worker.past, given.request = .underlying podUID → ∀ invalidated ∈ system.log,
      invalidated.exchange.request = .delete podUID → invalidated.exchange.state.clock < given.state.clock) (later : Nat) :
    Follows system.log podUID info later := by
  obtain ⟨began, given, past⟩ := ruled
  have seen : ⟨given, .underlying podUID, some info⟩ ∈ worker.past := past ▸ List.mem_cons_self
  obtain ⟨turn, listed, exchanged⟩ := kept.logged worker member _ seen
  exact ⟨turn, listed, given, exchanged, fun invalidated old deletes _ => timely _ seen rfl invalidated old deletes⟩

/-- What a call returns was cached when it looked it up, or was given to it afterwards. -/
theorem answers (kept : ResolverKept system) (member : worker ∈ system.workers) {podUID : String} {info : List CgroupInfo}
    (ruled : (CacheRequest.answer podUID (some info)).Rule worker.past) {began : CacheExchange} (inside : began ∈ worker.past)
    (looked : began.request = .lookup podUID) : Follows system.log podUID info began.state.clock := by
  have logged := kept.logged worker member
  have ordered := kept.ordered worker member
  rcases ruled with ⟨start, past⟩ | ⟨start, given, stored, past⟩
  · rw [past] at inside
    obtain rfl := List.mem_singleton.mp inside
    obtain ⟨turn, among, exchanged⟩ := logged _ (past ▸ List.mem_cons_self)
    exact kept.found turn among start podUID info exchanged
  · obtain ⟨turn, among, exchanged⟩ := logged ⟨given, .underlying podUID, some info⟩ (by rw [past]; simp)
    refine (Follows.self among exchanged).earlier ?_
    rw [past] at inside ordered
    simp only [List.mem_cons, List.not_mem_nil, or_false] at inside
    rcases inside with rfl | rfl | rfl
    · cases looked
    · cases looked
    · have after := (List.pairwise_cons.mp (List.pairwise_cons.mp ordered).2).1 _ List.mem_cons_self
      exact after.le

/-- One served request. The call has stored nothing but a timely answer. -/
theorem turn (kept : ResolverKept system) {request : CacheRequest}
    {next : request.Reply → Program CacheRequest CacheRequest.Reply Unit} (index : Nat) (member : worker ∈ system.workers) (rest : worker.rest = .ask request next)
    (timely : ∀ podUID info, request = .store podUID info → ∀ given ∈ worker.past, given.request = .underlying podUID →
      ∀ invalidated ∈ system.log, invalidated.exchange.request = .delete podUID →
        invalidated.exchange.state.clock < given.state.clock) :
    let served := system.world.serve request
    let exchange : CacheExchange := ⟨system.world, request, served.1⟩
    ResolverKept {
      world := served.2
      workers := system.workers.set index ⟨worker.owner, exchange :: worker.past, next served.1⟩
      log := ⟨worker.owner, worker.past, exchange⟩ :: system.log } := by
  intro served exchange
  have obeys := kept.obeys worker member
  rw [rest] at obeys
  obtain ⟨ruled, onward⟩ := obeys
  have logged := kept.logged worker member
  have ordered := kept.ordered worker member
  have ticked : served.2.clock = system.world.clock + 1 := serve_clock system.world request
  have earlier := kept.earlier member
  refine ⟨?_, ?_, ?_, ?_, ?_, ?_, ?_, ?_⟩
  · intro turn listed
    rw [ticked]
    rcases List.mem_cons.mp listed with rfl | old
    · exact Nat.lt_succ_self _
    · exact Nat.lt_succ_of_lt (kept.clock turn old)
  · intro turn listed seen inside
    rcases List.mem_cons.mp listed with rfl | old
    · exact earlier seen inside
    · exact kept.past turn old seen inside
  · intro podUID info cached
    rcases serve_cache cached with ⟨before, keeps⟩ | stores
    · exact (kept.cached podUID info before).undisturbed kept.clock keeps _
    · subst stores
      have following := kept.stores member ruled (timely podUID info rfl) system.world.clock
      exact following.undisturbed kept.clock (fun deletes => by cases deletes) _
  · intro turn listed state podUID info looked
    rcases List.mem_cons.mp listed with rfl | old
    · obtain ⟨rfl, rfl, same⟩ := Exchange.mk.inj looked
      exact (kept.cached podUID info (eq_of_heq same)).grown (Nat.le_refl _)
    · exact (kept.found turn old state podUID info looked).grown (looked ▸ kept.clock turn old).le
  · intro turn listed podUID info answers began inside looked
    rcases List.mem_cons.mp listed with rfl | old
    · change request = .answer podUID (some info) at answers
      subst answers
      exact (kept.answers member ruled inside looked).grown (earlier began inside).le
    · have sooner := (kept.past turn old began inside).trans (kept.clock turn old)
      exact (kept.answered turn old podUID info answers began inside looked).grown sooner.le
  · intro other inside
    rcases List.mem_or_eq_of_mem_set inside with old | rfl
    · exact kept.obeys other old
    · exact onward _ _
  · intro other inside seen past
    rcases List.mem_or_eq_of_mem_set inside with old | rfl
    · obtain ⟨turn, listed, same⟩ := kept.logged other old seen past
      exact ⟨turn, List.mem_cons_of_mem _ listed, same⟩
    · rcases List.mem_cons.mp past with rfl | before
      · exact ⟨_, List.mem_cons_self, rfl⟩
      · obtain ⟨turn, listed, same⟩ := logged seen before
        exact ⟨turn, List.mem_cons_of_mem _ listed, same⟩
  · intro other inside
    rcases List.mem_or_eq_of_mem_set inside with old | rfl
    · exact kept.ordered other old
    · exact List.pairwise_cons.mpr ⟨earlier, ordered⟩

theorem step (kept : ResolverKept system) {choice : ResolverChoice} (timely : Timely system choice) :
    ResolverKept (resolverCalls.step system choice) := by
  cases choice with
  | start owner call =>
    refine ⟨kept.clock, kept.past, kept.cached, kept.found, kept.answered, ?_, ?_, ?_⟩
    all_goals
      intro worker inside
      rcases List.mem_append.mp inside with old | new
    · exact kept.obeys worker old
    · obtain rfl := List.mem_singleton.mp new
      exact call.obeys
    · exact kept.logged worker old
    · obtain rfl := List.mem_singleton.mp new
      exact fun _ impossible => absurd impossible List.not_mem_nil
    · exact kept.ordered worker old
    · obtain rfl := List.mem_singleton.mp new
      exact List.Pairwise.nil
  | drift change => exact ⟨kept.clock, kept.past, kept.cached, kept.found, kept.answered, kept.obeys, kept.logged, kept.ordered⟩
  | turn index outcome =>
    rcases resolverCalls.turn_cases system index outcome with ⟨idle, -⟩ | ⟨worker, request, next, located, rest, stepped⟩
    · rw [idle]
      exact kept
    · rw [stepped]
      refine kept.turn index (List.mem_of_getElem? located) rest ?_
      rintro podUID info rfl
      obtain ⟨owner, past, program⟩ := worker
      change program = _ at rest
      subst rest
      simpa only [Timely, located] using timely

theorem boot (underlying : String → Option (List CgroupInfo)) : ResolverKept (Machine.boot (newCachedPodResolver underlying)) := by
  have nothing {kept : ResolverTurn → Prop} : ∀ turn ∈ ([] : List ResolverTurn), kept turn :=
    fun _ impossible => absurd impossible List.not_mem_nil
  have nobody {kept : Worker CachedPodResolver Unit CacheRequest CacheRequest.Reply → Prop} : ∀ worker ∈ [], kept worker :=
    fun _ impossible => absurd impossible List.not_mem_nil
  exact ⟨nothing, nothing, nofun, nothing, nothing, nobody, nobody, nobody⟩

end ResolverKept

/-- No answer is stale in a run that stores timely answers only. -/
theorem timely_none_stale (underlying : String → Option (List CgroupInfo)) {choices : List ResolverChoice}
    (timely : Trace.Along resolverCalls.step Timely (Machine.boot (newCachedPodResolver underlying)) choices) :
    NoneStale (Trace.run resolverCalls.step (Machine.boot (newCachedPodResolver underlying)) choices).log := by
  have kept := timely.invariant ResolverKept (.boot underlying) fun _ _ kept timely => kept.step timely
  intro invalidated listed answered among began inside podUID info deletes answers looked later
  obtain ⟨given, member, state, exchanged, follows⟩ := kept.answered answered among podUID info answers began inside looked
  exact ⟨given, member, state, exchanged, follows invalidated listed deletes later⟩

/-- The pod is invalidated between two calls, and the second one gets the new answer. -/
theorem new_answer_none_stale :
    let start := Machine.boot (newCachedPodResolver fun _ => some [⟨888, "old"⟩])
    let first : List ResolverChoice := [.start () (.resolve "pod"), .turn 0 (), .turn 0 (), .turn 0 (), .turn 0 ()]
    let second : List ResolverChoice := [.drift ("pod", some [⟨999, "new"⟩]), .start () (.invalidate "pod"), .turn 1 (),
      .start () (.resolve "pod"), .turn 2 (), .turn 2 (), .turn 2 (), .turn 2 ()]
    NoneStale (Trace.run resolverCalls.step start (first ++ second)).log :=
  timely_none_stale _ (by decide +kernel)

/-- A call asks, the pod is invalidated, and the call stores what it got before. -/
def lateStore : List ResolverChoice :=
  [.start () (.resolve "pod"), .turn 0 (), .turn 0 (), .drift ("pod", some [⟨999, "new"⟩]), .start () (.invalidate "pod"),
    .turn 1 (), .turn 0 (), .turn 0 (), .start () (.resolve "pod"), .turn 2 (), .turn 2 ()]

theorem late_store_stale :
    let start := Machine.boot (newCachedPodResolver fun _ => some [⟨888, "old"⟩])
    ¬ NoneStale (Trace.run resolverCalls.step start lateStore).log := by
  intro start noneStale
  let view (turn : ResolverTurn) : Nat × CacheRequest × List (Nat × CacheRequest) :=
    (turn.exchange.state.clock, turn.exchange.request, turn.past.map fun seen => (seen.state.clock, seen.request))
  have views : (Trace.run resolverCalls.step start lateStore).log.map view =
      [(6, .answer "pod" (some [⟨888, "old"⟩]), [(5, .lookup "pod")]),
        (5, .lookup "pod", []),
        (4, .answer "pod" (some [⟨888, "old"⟩]), [(3, .store "pod" [⟨888, "old"⟩]), (1, .underlying "pod"), (0, .lookup "pod")]),
        (3, .store "pod" [⟨888, "old"⟩], [(1, .underlying "pod"), (0, .lookup "pod")]),
        (2, .delete "pod", []),
        (1, .underlying "pod", [(0, .lookup "pod")]),
        (0, .lookup "pod", [])] := by decide +kernel
  generalize (Trace.run resolverCalls.step start lateStore).log = log at views noneStale
  obtain ⟨invalidated, listed, deletion⟩ : ∃ turn ∈ log, view turn = (2, .delete "pod", []) :=
    List.mem_map.mp (views ▸ by simp)
  obtain ⟨answered, among, answer⟩ : ∃ turn ∈ log, view turn = (6, .answer "pod" (some [⟨888, "old"⟩]), [(5, .lookup "pod")]) :=
    List.mem_map.mp (views ▸ by simp)
  simp only [view, Prod.mk.injEq] at deletion answer
  obtain ⟨began, inside, looked⟩ : ∃ seen ∈ answered.past, (seen.state.clock, seen.request) = (5, .lookup "pod") :=
    List.mem_map.mp (answer.2.2 ▸ List.mem_cons_self)
  obtain ⟨time, request⟩ := Prod.mk.inj looked
  obtain ⟨given, member, state, exchanged, later⟩ := noneStale invalidated listed answered among began inside "pod" [⟨888, "old"⟩]
    deletion.2.1 answer.2.1 request (by omega)
  have only := List.mem_map_of_mem (f := view) member
  simp only [views, view, exchanged, List.mem_cons, List.not_mem_nil, Prod.mk.injEq, reduceCtorEq, false_and, and_false, false_or,
    or_false] at only
  have early := only.1
  omega

end QuotaManager
