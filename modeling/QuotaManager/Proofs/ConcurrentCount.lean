import QuotaManager.Proofs.ConcurrentChecks

/-! The usage count of a namespace under any number of programs at once. The count is
raised and lowered atomically, so it always is what the start and the log of the
changes add up to. It is compared with the limit before it is raised, not when it is, so
it passes the limit by at most one less than the programs that run at the same time. -/

namespace QuotaManager.Enforcer

/-- Something of the namespace is given back. -/
def Usage.releases (start : ResourceMaps) (nsKey : UInt64) : Usage → Bool
  | .release task => decide (start.cgroup task.cgid = some nsKey)
  | .acquire _ | .idle => false

abbrev ProgramRun := Worker ResourceMaps Usage Access Access.Reply

namespace Programs
variable (nsKey : UInt64) (system : Programs)

/-- How often a caller was counted for the namespace, and how often one gave back. -/
def accepted : Nat := system.log.countP fun turn => decide (turn.exchange.request = .addLeaseCount nsKey)

def givenBack : Nat := system.log.countP fun turn => decide (turn.exchange.request = .subLeaseCount nsKey)

def releases (start : ResourceMaps) : Nat := system.workers.countP fun worker => worker.owner.releases start nsKey

def running : Nat := system.workers.countP Worker.running

end Programs

/-- What an access does to the count of a lease. -/
def Access.onCount (nsKey : UInt64) (access : Access) (count : UInt64) : UInt64 :=
  if access = .addLeaseCount nsKey then count + 1 else if access = .subLeaseCount nsKey then count - 1 else count

/-- The lease stays, and its count changes by nothing but the two atomic accesses. -/
theorem serve_count {maps : ResourceMaps} {nsKey : UInt64} {lease : CpuLease} (leased : maps.nsCounter nsKey = some lease)
    {owner : Usage} {past : List Observed} {request : Access} (grounds : Grounds owner past request) :
    ∃ after, (maps.serve request).2.nsCounter nsKey = some after ∧ after.count = request.onCount nsKey lease.count := by
  have edited (key : UInt64) (change : CpuLease → CpuLease) : ∃ after, (maps.editLease key change).nsCounter nsKey = some after ∧
      after = if nsKey = key then change lease else lease := by
    rw [editLease_nsCounter, leased]
    split
    · exact ⟨_, rfl, rfl⟩
    · exact ⟨_, rfl, rfl⟩
  have elsewhere (cgid : UInt64) (change : UInt64 → UInt64) : (maps.editCounter cgid change).nsCounter nsKey = some lease := by
    unfold ResourceMaps.editCounter
    split
    · exact leased
    · exact leased
  cases request with
  | updateCgroupCounter cgid value => exact ⟨lease, leased, rfl⟩
  | addCgroupCounter cgid => exact ⟨lease, elsewhere _ _, rfl⟩
  | subCgroupCounter cgid => exact ⟨lease, elsewhere _ _, rfl⟩
  | addLeaseCount key =>
    obtain ⟨after, found, rfl⟩ := edited key fun lease => { lease with count := lease.count + 1 }
    refine ⟨_, found, ?_⟩
    by_cases same : nsKey = key
    · simp [Access.onCount, same]
    · simp [Access.onCount, same, Ne.symm same]
  | subLeaseCount key =>
    obtain ⟨after, found, rfl⟩ := edited key fun lease => { lease with count := lease.count - 1 }
    refine ⟨_, found, ?_⟩
    by_cases same : nsKey = key
    · simp [Access.onCount, same]
    · simp [Access.onCount, same, Ne.symm same]
  | writeLease key field value =>
    obtain ⟨after, found, rfl⟩ := edited key (·.set value field)
    refine ⟨_, found, ?_⟩
    have kept : (lease.set value field).count = lease.count := by
      cases field with
      | count => exact grounds.elim
      | leaseBudget => rfl
      | lastUsedNs => rfl
      | topCgid => rfl
      | topCount => rfl
    split
    · exact kept
    · rfl
  | lookupCgroup _ => exact ⟨lease, leased, rfl⟩
  | lookupCgroupCounter _ => exact ⟨lease, leased, rfl⟩
  | readCgroupCounter _ => exact ⟨lease, leased, rfl⟩
  | lookupNsLimit _ => exact ⟨lease, leased, rfl⟩
  | lookupNsCounter _ => exact ⟨lease, leased, rfl⟩
  | readLease _ _ => exact ⟨lease, leased, rfl⟩
  | submit _ => exact ⟨lease, leased, rfl⟩
  | sendSignal => exact ⟨lease, leased, rfl⟩

section turn
variable {reason : UInt32} {start : ResourceMaps} {nsKey : UInt64} {system : Programs}

/-- One turn of a program, as the namespace's count and the log of its changes see it. -/
theorem count_turn (kept : (interleaved reason start).Kept system) {lease : CpuLease}
    (leased : system.world.nsCounter nsKey = some lease) {index : Nat} {worker : ProgramRun}
    {request : Access} {next : request.Reply → Code Unit} (found : system.workers[index]? = some worker)
    (rest : worker.rest = .ask request next) :
    let after := (fentryPrograms reason).step system (.turn index ())
    (∃ changed, after.world.nsCounter nsKey = some changed ∧ changed.count = request.onCount nsKey lease.count) ∧
      Programs.accepted nsKey after = Programs.accepted nsKey system + (if request = .addLeaseCount nsKey then 1 else 0) ∧
      Programs.givenBack nsKey after = Programs.givenBack nsKey system + (if request = .subLeaseCount nsKey then 1 else 0) := by
  have obeys := (kept.workers worker (List.mem_of_getElem? found)).obeys
  rw [rest] at obeys
  have stepped := (fentryPrograms reason).step_turn found rest ()
  dsimp only
  rw [stepped]
  refine ⟨serve_count leased obeys.1.2, ?_, ?_⟩
  · simp only [Programs.accepted, List.countP_cons, decide_eq_true_eq]
  · simp only [Programs.givenBack, List.countP_cons, decide_eq_true_eq]

/-- One step of the scheduler: the count changes as the log says. -/
theorem count_step (kept : (interleaved reason start).Kept system) {total : UInt64}
    (balanced : ∃ lease, system.world.nsCounter nsKey = some lease ∧
      lease.count + UInt64.ofNat (system.givenBack nsKey) = total + UInt64.ofNat (system.accepted nsKey))
    (choice : ProgramChoice) : ∃ lease, ((fentryPrograms reason).step system choice).world.nsCounter nsKey = some lease ∧
      lease.count + UInt64.ofNat (Programs.givenBack nsKey ((fentryPrograms reason).step system choice)) =
        total + UInt64.ofNat (Programs.accepted nsKey ((fentryPrograms reason).step system choice)) := by
  cases choice with
  | start owner task => exact balanced
  | drift change => exact balanced
  | turn index outcome =>
    rcases (fentryPrograms reason).turn_cases system index outcome with ⟨idle, _⟩ | ⟨worker, request, next, found, rest, _⟩
    · rw [idle]
      exact balanced
    · obtain ⟨lease, leased, balance⟩ := balanced
      obtain ⟨⟨changed, leased, counted⟩, accepts, givesBack⟩ := count_turn kept leased found rest
      refine ⟨changed, leased, ?_⟩
      rw [counted, accepts, givesBack, Access.onCount]
      by_cases add : request = .addLeaseCount nsKey
      · simp only [add, reduceCtorEq, ↓reduceIte, UInt64.ofNat_add]
        grind
      · by_cases sub : request = .subLeaseCount nsKey
        · simp only [sub, reduceCtorEq, ↓reduceIte, UInt64.ofNat_add]
          grind
        · simpa only [add, sub, ↓reduceIte, Nat.add_zero] using balance

end turn

/-- No change of the usage count is lost: in every order of the programs' accesses, the
count and what was given back make up the first count and what was accepted. -/
theorem count_conserved (reason : UInt32) (start : ResourceMaps) (nsKey : UInt64) {lease : CpuLease}
    (leased : start.nsCounter nsKey = some lease) (choices : List ProgramChoice) :
    let final : Programs := Trace.run (fentryPrograms reason).step (Machine.boot start) choices
    ∃ now, final.world.nsCounter nsKey = some now ∧
      now.count + UInt64.ofNat (final.givenBack nsKey) = lease.count + UInt64.ofNat (final.accepted nsKey) := by
  have balanced := Trace.run_invariant (fentryPrograms reason).step
    (fun system => (interleaved reason start).Kept system ∧ ∃ now, system.world.nsCounter nsKey = some now ∧
      now.count + UInt64.ofNat (Programs.givenBack nsKey system) = lease.count + UInt64.ofNat (Programs.accepted nsKey system))
    (fun system choice ⟨kept, balanced⟩ => ⟨kept.step (interleaved_valid choice), count_step kept balanced choice⟩)
    (show (interleaved reason start).Kept (Machine.boot start) ∧ _ from ⟨.boot (Ongoing.refl start), lease, leased, rfl⟩) choices
  exact balanced.2

/-- Two callers of one cgroup, whose programs take turns. -/
def inTurns : List ProgramChoice :=
  [.start (.acquire ⟨7, 0, 0, 0, true⟩) (), .start (.acquire ⟨7, 0, 0, 0, true⟩) ()] ++
    (List.range 40).map fun round => .turn (round % 2) ()

/-- Under a limit of 1 both are counted. -/
theorem count_conserved_in_turns :
    let final : Programs := Trace.run (fentryPrograms 0).step (Machine.boot singleUnit) inTurns
    final.accepted 1 = 2 ∧ ∃ now, final.world.nsCounter 1 = some now ∧
      now.count + UInt64.ofNat (final.givenBack 1) = 0 + UInt64.ofNat (final.accepted 1) :=
  ⟨by decide, count_conserved 0 singleUnit 1 (show _ = some (renewedLease none 1) from rfl) inTurns⟩

/-- An exchange in which the count was read and was below the limit. -/
def SawRoom (nsKey limit : UInt64) : Observed → Bool
  | ⟨_, .readLease key .count, count⟩ => decide (key = nsKey ∧ count < limit)
  | _ => false

/-- The program may still count its caller on the strength of what it has read. -/
def HoldsTicket (nsKey limit : UInt64) (worker : ProgramRun) : Bool :=
  worker.running && worker.past.any (SawRoom nsKey limit)

/-- The program was started for something given back, and has not lowered the count yet. -/
def MayGiveBack (start : ResourceMaps) (nsKey : UInt64) (worker : ProgramRun) : Bool :=
  worker.owner.releases start nsKey && !worker.past.any fun seen => decide (seen.request = .subLeaseCount nsKey)

section tickets
variable {start : ResourceMaps} {nsKey limit : UInt64} {worker : ProgramRun} {request : Access}
  {next : request.Reply → Code Unit} (rest : worker.rest = .ask request next)
include rest

/-- A program that is about to count its caller holds a ticket. -/
theorem holdsTicket_of_grounds (told : ∀ seen ∈ worker.past, Tells start seen) (limited : start.nsLimit nsKey = some limit)
    (accepts : request = .addLeaseCount nsKey) (grounds : Grounds worker.owner worker.past request) :
    HoldsTicket nsKey limit worker = true := by
  subst accepts
  obtain ⟨_, task, other, count, _, _, seen, ⟨state, read⟩, room⟩ := grounds
  obtain rfl : limit = other := Option.some.inj (limited.symm.trans (seen.fixed told))
  apply Bool.and_eq_true_iff.mpr
  exact ⟨Worker.running_iff.mpr ⟨_, _, rest⟩, List.any_eq_true.mpr ⟨_, read, decide_eq_true ⟨rfl, room⟩⟩⟩

omit rest in
/-- A program that has counted its caller has ended. -/
theorem ended_of_accepted {owner : Usage} {past : List Observed} {code : Code Unit}
    (obeys : code.Obeys (ProgramRule owner) (fun _ _ => True) past)
    (accepted : ∃ seen ∈ past, seen.request = .addLeaseCount nsKey) : (⟨owner, past, code⟩ : ProgramRun).running = false := by
  cases code with
  | done value => rfl
  | ask request next =>
    obtain ⟨seen, member, accepts⟩ := accepted
    exact absurd accepts (obeys.1.1 seen member nsKey)

omit rest in
/-- A program that is about to lower the count was started for something given back. -/
theorem mayGiveBack_of_grounds (told : ∀ seen ∈ worker.past, Tells start seen)
    (grounds : Grounds worker.owner worker.past (.subLeaseCount nsKey)) : MayGiveBack start nsKey worker = true := by
  obtain ⟨untouched, task, count, owner, mapped, _⟩ := grounds
  have released : worker.owner.releases start nsKey = true := by
    rw [owner]
    exact decide_eq_true (mapped.fixed told)
  have none : (worker.past.any fun seen => decide (seen.request = .subLeaseCount nsKey)) = false := by
    apply List.any_eq_false.mpr
    intro seen member
    simpa using (untouched seen member nsKey).2
  simp only [MayGiveBack, released, none, Bool.not_false, Bool.and_true]

omit rest in
/-- A program that counts its caller was started for something taken. -/
theorem mayGiveBack_of_accepts {owner : Usage} {past seen : List Observed} (grounds : Grounds owner past (.addLeaseCount nsKey))
    (code : Code Unit) : MayGiveBack start nsKey ⟨owner, seen, code⟩ = false := by
  obtain ⟨_, task, _, _, rfl, _⟩ := grounds
  rfl

omit rest in
/-- Nothing but lowering the count changes who may still give back. -/
theorem mayGiveBack_next (exchange : Observed) (onward : Code Unit) :
    MayGiveBack start nsKey ⟨worker.owner, exchange :: worker.past, onward⟩ =
      if exchange.request = .subLeaseCount nsKey then false else MayGiveBack start nsKey worker := by
  unfold MayGiveBack
  rw [List.any_cons]
  split
  next lowers => rw [decide_eq_true lowers, Bool.true_or, Bool.not_true, Bool.and_false]
  next keeps => rw [decide_eq_false keeps, Bool.false_or]

/-- Nothing but reading a count below the limit gives out a ticket. -/
theorem holdsTicket_before {exchange : Observed} {onward : Code Unit} (blind : SawRoom nsKey limit exchange = false)
    (holds : HoldsTicket nsKey limit ⟨worker.owner, exchange :: worker.past, onward⟩ = true) :
    HoldsTicket nsKey limit worker = true := by
  have saw := (Bool.and_eq_true_iff.mp holds).2
  rw [List.any_cons, blind, Bool.false_or] at saw
  exact Bool.and_eq_true_iff.mpr ⟨Worker.running_iff.mpr ⟨_, _, rest⟩, saw⟩

end tickets

/-- A ticket is given out while there is room. -/
theorem room_of_sawRoom {maps : ResourceMaps} {nsKey limit : UInt64} {lease : CpuLease}
    (leased : maps.nsCounter nsKey = some lease) {request : Access}
    (saw : SawRoom nsKey limit ⟨maps, request, (maps.serve request).1⟩ = true) :
    request = .readLease nsKey .count ∧ lease.count < limit := by
  cases request with
  | readLease key field =>
    cases field with
    | count =>
      obtain ⟨rfl, room⟩ := of_decide_eq_true saw
      simp only [ResourceMaps.serve, leased] at room
      exact ⟨rfl, room⟩
    | _ => cases saw
  | _ => cases saw

/-- What the programs of one namespace add up to. -/
structure Tally where
  count : UInt64
  tickets : Nat
  pending : Nat
  releases : Nat
  accepted : Nat
  givenBack : Nat

/-- What one choice of the scheduler can do to the tally. -/
inductive Tally.Step (limit : UInt64) (before after : Tally) : Prop where
  | accept (count : after.count = before.count + 1) (tickets : after.tickets + 1 = before.tickets)
      (pending : after.pending = before.pending) (releases : after.releases = before.releases)
      (accepted : after.accepted = before.accepted + 1) (givenBack : after.givenBack = before.givenBack)
  | giveBack (count : after.count = before.count - 1) (tickets : after.tickets ≤ before.tickets)
      (pending : after.pending + 1 = before.pending) (releases : after.releases = before.releases)
      (accepted : after.accepted = before.accepted) (givenBack : after.givenBack = before.givenBack + 1)
  | quiet (count : after.count = before.count) (tickets : before.count < limit ∨ after.tickets ≤ before.tickets)
      (pending : after.pending + before.releases = before.pending + after.releases)
      (accepted : after.accepted = before.accepted) (givenBack : after.givenBack = before.givenBack)

/-- At most `width` programs run at once, and nothing is given back that was not counted. -/
structure Tally.Sound (limit : UInt64) (first width : Nat) (tally : Tally) : Prop where
  balanced : tally.count.toNat + tally.givenBack = first + tally.accepted
  bounded : Turnstile.Bounded limit.toNat width first ⟨tally.count.toNat, tally.tickets⟩
  once : tally.givenBack + tally.pending ≤ tally.releases

/-- The step lemma of the tally. Neither change of the count wraps around: a caller is
counted by a program with a ticket, and one that gives back was counted before. -/
theorem Tally.Sound.step {limit : UInt64} {first width : Nat} {before after : Tally} (sound : before.Sound limit first width)
    (step : Step limit before after) (small : limit.toNat + width ≤ 2 ^ 64) (backed : before.releases ≤ first + before.accepted)
    (few : after.tickets ≤ width) : after.Sound limit first width := by
  obtain ⟨balanced, bounded, once⟩ := sound
  cases step with
  | accept count tickets pending releases accepted givenBack =>
    have raised : after.count.toNat = before.count.toNat + 1 := by
      have fits : before.count.toNat + 1 < 2 ^ 64 := by
        rcases bounded with ⟨none, _⟩ | within
        · simp only at none
          omega
        · simp only at within
          omega
      rw [count]
      exact Words.toNat_add_of_lt fits
    refine ⟨by omega, bounded.step (.pass raised tickets) few, by omega⟩
  | giveBack count tickets pending releases accepted givenBack =>
    have lowered : after.count.toNat + 1 = before.count.toNat := by
      have positive : before.count.toNat ≠ 0 := by omega
      rw [count, Words.toNat_sub_one fun zero => positive (by rw [zero]; rfl)]
      omega
    refine ⟨by omega, bounded.step (.giveBack (by simp only; omega) tickets) few, by omega⟩
  | quiet count tickets pending accepted givenBack =>
    have same : after.count.toNat = before.count.toNat := congrArg UInt64.toNat count
    refine ⟨by omega, ?_, by omega⟩
    rcases tickets with room | fewer
    · exact bounded.step (.look (UInt64.lt_iff_toNat_lt.mp room) same) few
    · exact bounded.step (.giveBack (Nat.le_of_eq same) fewer) few

def tally (start : ResourceMaps) (nsKey limit : UInt64) (system : Programs) : Tally where
  count := (system.world.nsCounter nsKey).elim 0 (·.count)
  tickets := system.workers.countP (HoldsTicket nsKey limit)
  pending := system.workers.countP (MayGiveBack start nsKey)
  releases := system.releases nsKey start
  accepted := system.accepted nsKey
  givenBack := system.givenBack nsKey

theorem tickets_le (start : ResourceMaps) (nsKey limit : UInt64) (system : Programs) :
    (tally start nsKey limit system).tickets ≤ system.running := by
  apply List.countP_mono_left
  intro worker _ holds
  exact (Bool.and_eq_true_iff.mp holds).1

section simulation
variable {reason : UInt32} {start : ResourceMaps} {nsKey limit : UInt64} {system : Programs}

theorem tally_start (usage : Usage) :
    (tally start nsKey limit system).Step limit (tally start nsKey limit ((fentryPrograms reason).step system (.start usage ()))) := by
  refine .quiet rfl (.inr ?_) ?_ rfl rfl
  · simp [tally, Machine.step, HoldsTicket]
  · simp only [tally, Programs.releases, Machine.step, List.countP_append, List.countP_singleton, MayGiveBack,
      List.any_nil, Bool.not_false, Bool.and_true]
    omega

variable {index : Nat} {worker : ProgramRun} {request : Access} {next : request.Reply → Code Unit}

theorem tally_turn (kept : (interleaved reason start).Kept system) (limited : start.nsLimit nsKey = some limit)
    (leased : (start.nsCounter nsKey).isSome) (found : system.workers[index]? = some worker)
    (rest : worker.rest = .ask request next) : (tally start nsKey limit system).Step limit
      (tally start nsKey limit ((fentryPrograms reason).step system (.turn index ()))) := by
  obtain ⟨obeys, told⟩ := kept.workers worker (List.mem_of_getElem? found)
  rw [rest] at obeys
  rw [← kept.sound.leases] at leased
  obtain ⟨lease, leased⟩ := Option.isSome_iff_exists.mp leased
  obtain ⟨⟨changed, leasedAfter, counted⟩, accepts, givesBack⟩ := count_turn kept leased found rest
  have stepped := (fentryPrograms reason).step_turn found rest ()
  generalize (fentryPrograms reason).step system (.turn index ()) = after at *
  let later : ProgramRun := ⟨worker.owner, ⟨system.world, request, (system.world.serve request).1⟩ :: worker.past,
    next (system.world.serve request).1⟩
  have workers : after.workers = system.workers.set index later := by rw [stepped]; rfl
  have tickets := Machine.countP_turn found later (HoldsTicket nsKey limit)
  have pending := Machine.countP_turn found later (MayGiveBack start nsKey)
  have releases := Machine.countP_turn found later fun worker => worker.owner.releases start nsKey
  rw [← workers] at tickets pending releases
  have sameReleases : after.workers.countP _ = system.workers.countP _ := Nat.add_right_cancel releases
  have count : (tally start nsKey limit after).count = request.onCount nsKey (tally start nsKey limit system).count := by
    simp only [tally, leasedAfter, leased, Option.elim_some, counted]
  by_cases add : request = .addLeaseCount nsKey
  · have holds := holdsTicket_of_grounds rest told limited add obeys.1.2
    have ended : HoldsTicket nsKey limit later = false := by
      apply Bool.and_eq_false_iff.mpr
      exact .inl (ended_of_accepted (obeys.2 _ _) ⟨_, List.mem_cons_self, add⟩)
    have neither (past : List Observed) (rest : Code Unit) : MayGiveBack start nsKey ⟨worker.owner, past, rest⟩ = false :=
      mayGiveBack_of_accepts (add ▸ obeys.1.2) rest
    simp only [holds, ended, neither, later, Bool.false_eq_true, ↓reduceIte, Nat.add_zero] at tickets pending
    rw [Access.onCount, if_pos add] at count
    rw [if_pos add] at accepts
    rw [if_neg (by rw [add]; exact nofun)] at givesBack
    exact .accept count tickets pending sameReleases accepts givesBack
  have fewer (blind : SawRoom nsKey limit ⟨system.world, request, (system.world.serve request).1⟩ = false) :
      (tally start nsKey limit after).tickets ≤ (tally start nsKey limit system).tickets := by
    have before : HoldsTicket nsKey limit later = true → HoldsTicket nsKey limit worker = true := holdsTicket_before rest blind
    simp only [tally, workers]
    exact Machine.countP_turn_le found before
  rw [Access.onCount, if_neg add] at count
  rw [if_neg add, Nat.add_zero] at accepts
  by_cases sub : request = .subLeaseCount nsKey
  · have before := mayGiveBack_of_grounds told (sub ▸ obeys.1.2)
    have done : MayGiveBack start nsKey later = false := (mayGiveBack_next _ _).trans (if_pos sub)
    have blind : SawRoom nsKey limit ⟨system.world, request, (system.world.serve request).1⟩ = false := by
      apply Bool.eq_false_of_not_eq_true
      intro saw
      exact nomatch sub.symm.trans (room_of_sawRoom leased saw).1
    simp only [before, done, Bool.false_eq_true, ↓reduceIte, Nat.add_zero] at pending
    rw [if_pos sub] at count givesBack
    exact .giveBack count (fewer blind) pending sameReleases accepts givesBack
  · have same : MayGiveBack start nsKey later = MayGiveBack start nsKey worker := (mayGiveBack_next _ _).trans (if_neg sub)
    rw [same] at pending
    rw [if_neg sub] at count givesBack
    refine .quiet count ?_ (congrArg₂ (· + ·) (Nat.add_right_cancel pending) sameReleases.symm) accepts givesBack
    by_cases saw : SawRoom nsKey limit ⟨system.world, request, (system.world.serve request).1⟩ = true
    · have room := (room_of_sawRoom leased saw).2
      exact .inl (by simpa only [tally, leased, Option.elim_some] using room)
    · exact .inr (fewer (Bool.eq_false_of_not_eq_true saw))

/-- The programs simulate the tally. -/
theorem tally_step (kept : (interleaved reason start).Kept system) (limited : start.nsLimit nsKey = some limit)
    (leased : (start.nsCounter nsKey).isSome) (choice : ProgramChoice) : (tally start nsKey limit system).Step limit
      (tally start nsKey limit ((fentryPrograms reason).step system choice)) := by
  have idle : (tally start nsKey limit system).Step limit (tally start nsKey limit system) :=
    .quiet rfl (.inr (Nat.le_refl _)) rfl rfl rfl
  cases choice with
  | start usage _ => exact tally_start usage
  | drift counters => exact idle
  | turn index _ =>
    rcases (fentryPrograms reason).turn_cases system index () with ⟨same, _⟩ | ⟨worker, request, next, found, rest, _⟩
    · rw [same]
      exact idle
    · exact tally_turn kept limited leased found rest

end simulation

/-- However the accesses of the programs interleave: while a limit stays, at most
`width` programs run at once and nothing is given back that was not counted before, the
count is exact and passes the limit by less than `width`. -/
theorem count_bounded (reason : UInt32) (start : ResourceMaps) (nsKey : UInt64) {limit : UInt64} {lease : CpuLease}
    (width : Nat) (choices : List ProgramChoice) (limited : start.nsLimit nsKey = some limit)
    (leased : start.nsCounter nsKey = some lease) (small : limit.toNat + width ≤ 2 ^ 64)
    (few : Trace.Throughout (fentryPrograms reason).step (fun system => Programs.running system ≤ width) (Machine.boot start) choices)
    (backed : Trace.Throughout (fentryPrograms reason).step (fun system =>
      Programs.releases nsKey system start ≤ lease.count.toNat + Programs.accepted nsKey system) (Machine.boot start) choices) :
    let final : Programs := Trace.run (fentryPrograms reason).step (Machine.boot start) choices
    ∃ now, final.world.nsCounter nsKey = some now ∧
      now.count.toNat + final.givenBack nsKey = lease.count.toNat + final.accepted nsKey ∧
      now.count.toNat ≤ max lease.count.toNat (limit.toNat + width - 1) := by
  intro final
  have run := (few.along_next.and backed.along).invariant
    (fun system => (interleaved reason start).Kept system ∧ (tally start nsKey limit system).Sound limit lease.count.toNat width)
    ⟨.boot (Ongoing.refl start), ?_⟩ ?_
  · obtain ⟨kept, sound⟩ : (interleaved reason start).Kept final ∧
        (tally start nsKey limit final).Sound limit lease.count.toNat width := run
    have still := kept.sound.leases nsKey
    rw [leased] at still
    obtain ⟨now, found⟩ := Option.isSome_iff_exists.mp still
    have balanced := sound.balanced
    have bounded := sound.bounded.reading_le
    simp only [tally, found, Option.elim_some] at balanced bounded
    exact ⟨now, found, balanced, bounded⟩
  · refine ⟨?_, .inl ⟨rfl, ?_⟩, Nat.le_refl _⟩
    · simp only [tally, Machine.boot, leased, Option.elim_some]
      rfl
    · simp only [tally, Machine.boot, leased, Option.elim_some]
      exact Nat.le_refl _
  · rintro system choice ⟨kept, sound⟩ ⟨few, backed⟩
    refine ⟨kept.step (interleaved_valid choice), sound.step (tally_step kept limited ?_ choice) small backed ?_⟩
    · rw [leased, Option.isSome_some]
    · exact Nat.le_trans (tickets_le _ _ _ _) few

/-- Two programs in turns pass a limit of 1 by one. -/
theorem count_bounded_in_turns :
    let final : Programs := Trace.run (fentryPrograms 0).step (Machine.boot singleUnit) inTurns
    final.accepted 1 = 2 ∧ ∃ now, final.world.nsCounter 1 = some now ∧
      now.count.toNat + final.givenBack 1 = 0 + final.accepted 1 ∧ now.count.toNat ≤ max 0 (1 + 2 - 1) :=
  ⟨by decide, count_bounded 0 singleUnit 1 2 inTurns rfl (show _ = some (renewedLease none 1) from rfl) (by decide) (by decide)
    (by decide)⟩

end QuotaManager.Enforcer
