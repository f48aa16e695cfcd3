import QuotaManager.Logic.Advance
import QuotaManager.Proofs.ConcurrentCount
import QuotaManager.Proofs.ProgramSteps

/-! How far the usage count can pass the limit. The check and the addition that follows
it are two accesses, so any number of programs can come to wait before their addition
while there is room for one caller; each then adds. -/

namespace QuotaManager.Enforcer

/-- Nothing but counters has changed, and a caller has room. -/
structure Room (start : ResourceMaps) (nsKey limit count : UInt64) (maps : ResourceMaps) : Prop where
  cgroup : maps.cgroup = start.cgroup
  limited : maps.nsLimit nsKey = some limit
  leased : ∃ lease, maps.nsCounter nsKey = some lease ∧ lease.count = count ∧ count < lease.leaseBudget
  below : count < limit

/-- The program has decided that its caller is counted. -/
def Waits (nsKey : UInt64) (worker : ProgramRun) : Prop := ∃ next, worker.rest = .ask (.addLeaseCount nsKey) next

section passes
variable {start maps after : ResourceMaps} {nsKey limit count : UInt64} {α β : Type}

/-- Turns of one program with nothing in between. -/
def Passes (code : Code α) (maps : ResourceMaps) (later : Code α) (after : ResourceMaps) : Prop :=
  Program.Advances (fun maps access (_ : Unit) => maps.serve access) (fun _ => ()) code maps later after

theorem Passes.ask {request : Access} {next : request.Reply → Code α} {later : Code α}
    (rest : Passes (next (maps.serve request).1) (maps.serve request).2 later after) :
    Passes (Program.bind (access request) next) maps later after :=
  Program.Advances.ask rest

theorem Passes.alone {code : Code α} {next : α → Code β} {later : Code β}
    (rest : Passes (next (code.alone maps).1) (code.alone maps).2 later after) :
    Passes (Program.bind code next) maps later after :=
  Program.Advances.exec rest

/-- A check that finds room goes on to the addition. -/
theorem charge_passes (task : Task) (reason : UInt32) (room : Room start nsKey limit count maps) (next : Outcome → Code α) :
    ∃ onward, Passes (Program.bind (charge task nsKey limit reason) next) maps (.ask (.addLeaseCount nsKey) onward) maps := by
  obtain ⟨lease, leased, rfl, budget⟩ := room.leased
  have below : ¬ lease.count ≥ limit := UInt64.not_le.mpr room.below
  have unspent : ¬ lease.count ≥ lease.leaseBudget := UInt64.not_le.mpr budget
  refine ⟨fun _ => next .pass, ?_⟩
  simp only [charge, Program.bind_eq, Program.bind_assoc]
  refine .ask ?_
  simp only [ResourceMaps.serve, leased, Option.elim_some, CpuLease.get, below, ↓reduceIte, Program.bind_assoc]
  refine .alone ?_
  simp only [spent_alone leased, unspent, decide_false]
  exact .refl _ _

theorem overLimitCode_passes (reason : UInt32) {task : Task} (mapped : start.cgroup task.cgid = some nsKey)
    (room : Room start nsKey limit count maps) (next : Outcome → Code α) :
    ∃ onward after, Room start nsKey limit count after ∧
      Passes (Program.bind (overLimitCode task reason) next) maps (.ask (.addLeaseCount nsKey) onward) after := by
  obtain ⟨lease, leased, rfl, budget⟩ := room.leased
  have positive : limit ≠ 0 := fun zero => UInt64.not_lt_zero (zero ▸ room.below)
  generalize recording : maps.recordInc task.cgid = recorded
  have same := maps.recordInc_eq task.cgid
  rw [recording] at same
  have leasedThen : recorded.nsCounter nsKey = some lease := by rw [same, ← leased]
  have limitedThen : recorded.nsLimit nsKey = some limit := by rw [same, ← room.limited]
  let used : CpuLease := { lease.noteTop task.cgid (recorded.cgroupCounter task.cgid) with lastUsedNs := task.usedAt }
  have still : Room start nsKey limit lease.count (recorded.editLease nsKey fun _ => used) := by
    refine ⟨?_, ?_, ⟨used, ResourceMaps.nsCounter_editLease leasedThen _, ?_, ?_⟩, room.below⟩
    · rw [ResourceMaps.editLease_found leasedThen]
      rw [same, ← room.cgroup]
    · rw [ResourceMaps.editLease_found leasedThen]
      exact limitedThen
    · exact CpuLease.noteTop_count _ _ _
    · simpa only [used, CpuLease.noteTop_leaseBudget] using budget
  obtain ⟨onward, passes⟩ := charge_passes task reason still next
  refine ⟨onward, _, still, ?_⟩
  simp only [overLimitCode, Program.bind_eq, Program.bind_assoc]
  refine .ask ?_
  simp only [ResourceMaps.serve, room.cgroup, mapped, Program.bind_assoc]
  refine .alone ?_
  simp only [recordCgroupInc_alone, recording]
  refine .ask ?_
  simp only [ResourceMaps.serve, limitedThen, positive, ↓reduceIte, Program.bind_assoc]
  refine .ask ?_
  simp only [ResourceMaps.serve, leasedThen, Option.isSome_some, Program.bind_assoc]
  refine .alone ?_
  simp only [noteTop_alone leasedThen]
  refine .ask ?_
  simp only [ResourceMaps.serve, ResourceMaps.editLease_editLease]
  exact passes

end passes

section together
variable (reason : UInt32) {start : ResourceMaps} {nsKey limit count : UInt64} (system : Programs)

/-- One more program comes to wait. -/
theorem one_waits {task : Task} (mapped : start.cgroup task.cgid = some nsKey) (room : Room start nsKey limit count system.world) :
    ∃ opening worker after log, Room start nsKey limit count after ∧ Waits nsKey worker ∧ worker.owner = .acquire task ∧
      Trace.run (fentryPrograms reason).step system opening = ⟨after, system.workers ++ [worker], log⟩ ∧
      opening.countP Machine.isStart = 1 := by
  obtain ⟨onward, after, still, passes⟩ := overLimitCode_passes reason mapped room fun outcome =>
    Program.bind (sendSignal outcome.verdict) fun _ => Program.bind (.done outcome.reaction) fun _ => .done ()
  have begun : (fentryPrograms reason).body (.acquire task) () = Program.bind (overLimitCode task reason) fun outcome =>
      Program.bind (sendSignal outcome.verdict) fun _ => Program.bind (.done outcome.reaction) fun _ => .done () := by
    simp only [fentryPrograms, Usage.code, acquireCode, Program.bind_eq, Program.bind_assoc]
    rfl
  rw [← begun] at passes
  let opened : Programs := (fentryPrograms reason).step system (.start (.acquire task) ())
  have found : opened.workers[system.workers.length]? = some ⟨.acquire task, [], (fentryPrograms reason).body (.acquire task) ()⟩ :=
    List.getElem?_concat_length
  obtain ⟨turns, past, log, ended⟩ := (fentryPrograms reason).run_advances found passes
  refine ⟨.start (.acquire task) () :: List.replicate turns (.turn system.workers.length ()), ⟨.acquire task, past, _⟩, after, log,
    still, ⟨onward, rfl⟩, rfl, ended.trans ?_, ?_⟩
  · simp only [opened, Machine.step, List.set_append_right _ _ (Nat.le_refl _), Nat.sub_self, List.set_cons_zero]
  · rw [List.countP_cons, List.countP_replicate]
    rfl

/-- Any number of programs come to wait. -/
theorem all_wait (tasks : List Task) (mapped : ∀ task ∈ tasks, start.cgroup task.cgid = some nsKey)
    (room : Room start nsKey limit count system.world) : ∃ choices waiting after log, Room start nsKey limit count after ∧
      (∀ worker ∈ waiting, Waits nsKey worker) ∧ waiting.map (·.owner) = tasks.map .acquire ∧
      Trace.run (fentryPrograms reason).step system choices = ⟨after, system.workers ++ waiting, log⟩ ∧
      choices.countP Machine.isStart = tasks.length := by
  induction tasks generalizing system with
  | nil => exact ⟨[], [], system.world, system.log, room, nofun, rfl, by rw [List.append_nil]; rfl, rfl⟩
  | cons task rest ih =>
    obtain ⟨opening, worker, between, log, still, first, owner, joined, one⟩ :=
      one_waits reason system (mapped task List.mem_cons_self) room
    obtain ⟨choices, waiting, after, log, last, others, owners, ended, starts⟩ :=
      ih ⟨between, system.workers ++ [worker], log⟩ (fun other member => mapped other (List.mem_cons_of_mem _ member)) still
    refine ⟨opening ++ choices, worker :: waiting, after, log, last, List.forall_mem_cons.mpr ⟨first, others⟩, ?_, ?_, ?_⟩
    · rw [List.map_cons, owner, owners, List.map_cons]
    · rw [Trace.run_append, joined, ended, List.append_assoc, List.singleton_append]
    · rw [List.countP_append, one, starts, List.length_cons, Nat.add_comm]

/-- Each of them adds. -/
theorem all_add (waiting : List ProgramRun) (waits : ∀ worker ∈ waiting, Waits nsKey worker) {maps : ResourceMaps} {lease : CpuLease}
    (leased : maps.nsCounter nsKey = some lease) (ended : List ProgramRun) (log : List (Turn ResourceMaps Usage Access Access.Reply)) :
    ∃ choices, let final : Programs := Trace.run (fentryPrograms reason).step ⟨maps, ended ++ waiting, log⟩ choices
      final.workers.map (·.owner) = (ended ++ waiting).map (·.owner) ∧
      (∃ now, final.world.nsCounter nsKey = some now ∧ now.count = lease.count + UInt64.ofNat waiting.length) ∧
      choices.countP Machine.isStart = 0 := by
  induction waiting generalizing maps lease ended log with
  | nil => exact ⟨[], rfl, ⟨lease, leased, (UInt64.add_zero _).symm⟩, rfl⟩
  | cons worker rest ih =>
    obtain ⟨next, asks⟩ := waits worker List.mem_cons_self
    obtain ⟨past, onward, moved⟩ := (fentryPrograms reason).step_turn_between maps ended rest log asks ()
    obtain ⟨choices, owners, ⟨now, held, counted⟩, starts⟩ := ih (fun other member => waits other (List.mem_cons_of_mem _ member))
      (ResourceMaps.nsCounter_editLease leased fun lease => { lease with count := lease.count + 1 })
      (ended ++ [⟨worker.owner, past, next ()⟩]) onward
    rw [List.append_assoc, List.singleton_append] at owners held
    refine ⟨.turn ended.length () :: choices, ?_, ⟨now, ?_, ?_⟩, ?_⟩
    · rw [Trace.run_cons, moved]
      refine owners.trans ?_
      simp only [List.map_append, List.map_cons]
    · rw [Trace.run_cons, moved]
      exact held
    · rw [counted, List.length_cons, UInt64.ofNat_add]
      simp only
      grind
    · rw [List.countP_cons, starts]
      rfl

end together

/-- The bound is met: while there is room for one caller, some order of the accesses of
the tasks' programs, and of no others, counts all of them. -/
theorem excess_reached (reason : UInt32) (start : ResourceMaps) (nsKey : UInt64) {limit : UInt64} {lease : CpuLease}
    (tasks : List Task) (mapped : ∀ task ∈ tasks, start.cgroup task.cgid = some nsKey) (limited : start.nsLimit nsKey = some limit)
    (leased : start.nsCounter nsKey = some lease) (below : lease.count < limit) (budget : lease.count < lease.leaseBudget) :
    ∃ choices, let final : Programs := Trace.run (fentryPrograms reason).step (Machine.boot start) choices
      Trace.Throughout (fentryPrograms reason).step (fun system => Programs.running system ≤ tasks.length) (Machine.boot start) choices ∧
      final.workers.map (·.owner) = tasks.map .acquire ∧ final.releases nsKey start = 0 ∧
      ∃ now, final.world.nsCounter nsKey = some now ∧ now.count = lease.count + UInt64.ofNat tasks.length := by
  obtain ⟨choices, waiting, after, log, room, waits, owners, gathered, starts⟩ :=
    all_wait reason (Machine.boot start) tasks mapped ⟨rfl, limited, ⟨lease, leased, rfl, budget⟩, below⟩
  obtain ⟨now, held, same, _⟩ := room.leased
  obtain ⟨turns, kept, ⟨last, found, counted⟩, none⟩ := all_add reason waiting waits held [] log
  have together := congrArg List.length owners
  rw [List.length_map, List.length_map] at together
  rw [← show Trace.run _ (Machine.boot start) choices = ⟨after, [] ++ waiting, log⟩ from gathered, ← Trace.run_append] at kept found
  rw [List.nil_append, owners] at kept
  refine ⟨choices ++ turns, ?_, kept, ?_, last, found, by rw [counted, same, together]⟩
  · intro first early
    have bounded := early.sublist.countP_le (p := Machine.isStart)
    rw [List.countP_append, starts, none] at bounded
    have workers := (fentryPrograms reason).run_length (Machine.boot start) first
    refine Nat.le_trans List.countP_le_length ?_
    rw [workers]
    simp only [Machine.boot, List.length_nil]
    omega
  · apply List.countP_eq_zero.mpr
    intro worker member
    obtain ⟨task, _, owner⟩ := List.mem_map.mp (kept ▸ List.mem_map_of_mem member)
    rw [← owner]
    exact Bool.false_ne_true

/-- Three callers at once pass a limit of 1 by two. -/
theorem excess_reached_three :
    ∃ choices, let final : Programs := Trace.run (fentryPrograms 0).step (Machine.boot singleUnit) choices
      Trace.Throughout (fentryPrograms 0).step (fun system => Programs.running system ≤ 3) (Machine.boot singleUnit) choices ∧
      final.workers.map (·.owner) = (List.replicate 3 ⟨7, 0, 0, 0, true⟩).map .acquire ∧ final.releases 1 singleUnit = 0 ∧
      ∃ now, final.world.nsCounter 1 = some now ∧ now.count = 0 + UInt64.ofNat 3 :=
  excess_reached 0 singleUnit 1 (List.replicate 3 ⟨7, 0, 0, 0, true⟩) (fun _ member => List.eq_of_mem_replicate member ▸ rfl) rfl
    (show _ = some (renewedLease none 1) from rfl) (by decide) (by decide)

end QuotaManager.Enforcer
