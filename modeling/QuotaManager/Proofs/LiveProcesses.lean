import QuotaManager.Proofs.Accounting
import QuotaManager.Logic.Trace

/-! The process counter against the processes that exist. A clone that is only
reported is not stopped: its process is created and not counted, yet its exit is
counted. From then on one clone too many can pass in silence. -/

namespace QuotaManager.Enforcer

/-- A loaded object and the cgroups of the processes created and not yet exited. -/
structure Processes where
  bpf : Bpf
  live : List UInt64

namespace Processes

/-- The program cannot block a clone; only a killed caller creates no process. -/
def step (state : Processes) (event : KernelEvent) : Processes where
  bpf := state.bpf.after event
  live :=
    match event with
    | .kernelClone task =>
      if (overProcLimit state.bpf task).1.verdict = .kill then state.live else task.cgid :: state.live
    | .doExit task => state.live.erase task.cgid
    | _ => state.live

/-- Clones come from the namespace; only processes created in the run exit, each in its own cgroup. -/
def Valid (nsKey : UInt64) (state : Processes) : KernelEvent → Prop
  | .kernelClone task => state.bpf.proc.cgroup task.cgid = some nsKey
  | .doExit task => task.cgid ∈ state.live
  | _ => True

/-- A clone in a namespace that is at its limit or over it is reported. -/
def Reported (limit : PositiveLimit) (state : Processes) (event : KernelEvent) : Prop :=
  ∀ task, event = .kernelClone task → limit.stored.toNat ≤ state.live.length →
    (react state.bpf event).1.emitted.isSome = true

/-- A clone in a namespace that is at its limit or over it comes from the top
consumer, be it by this call, and its report finds room in the ring buffer. -/
def Contained (nsKey : UInt64) (limit : PositiveLimit) (state : Processes) (event : KernelEvent) : Prop :=
  ∀ task lease, event = .kernelClone task → limit.stored.toNat ≤ state.live.length →
    state.bpf.proc.nsCounter nsKey = some lease →
    task.reserved = true ∧
      (lease.topCount < state.bpf.proc.cgroupCounter.count task.cgid + 1 ∨ lease.topCgid = task.cgid)

/-- The counter measures the live processes, all of them in the namespace. -/
structure Measured (nsKey : UInt64) (limit : PositiveLimit) (state : Processes) (lease : CpuLease) : Prop where
  sound : Sound state.bpf.proc nsKey limit.stored lease
  mapped : ∀ cgid ∈ state.live, state.bpf.proc.cgroup cgid = some nsKey
  exact : lease.count.toNat = state.live.length

theorem step_proc (state : Processes) (event : KernelEvent) :
    (state.step event).bpf.proc = state.bpf.proc.use Resource.proc.reason (event.usage .proc) :=
  state.bpf.after_maps event .proc

theorem clone_passes {bpf : Bpf} {nsKey limit : UInt64} {lease : CpuLease} {task : Task}
    (sound : Sound bpf.proc nsKey limit lease) (mapped : bpf.proc.cgroup task.cgid = some nsKey)
    (room : lease.count < limit) : (overProcLimit bpf task).1 = .pass := by
  obtain ⟨_, counted, _⟩ := sound.counted Resource.proc.reason mapped room
  exact congrArg Prod.fst counted

namespace Measured
variable {nsKey : UInt64} {limit : PositiveLimit} {state : Processes} {lease : CpuLease} {task : Task}

theorem clone (measured : Measured nsKey limit state lease) (mapped : state.bpf.proc.cgroup task.cgid = some nsKey)
    (room : state.live.length < limit.stored.toNat) :
    (react state.bpf (.kernelClone task)).1 = .none ∧
      ∃ after, Measured nsKey limit (state.step (.kernelClone task)) after := by
  have below : lease.count < limit.stored := by rw [UInt64.lt_iff_toNat_lt, measured.exact]; exact room
  have passed := clone_passes measured.sound mapped below
  obtain ⟨after, later, moved⟩ := measured.sound.use Resource.proc.reason (.acquire task)
  refine ⟨by simp only [react, trackClone, passed]; rfl, after, ?_, ?_, ?_⟩
  · rw [step_proc]; exact later
  · intro cgid member
    simp only [step, passed, Outcome.pass, reduceCtorEq, ↓reduceIte, List.mem_cons] at member
    rw [step_proc, ResourceMaps.use_cgroup]
    rcases member with rfl | member
    · exact mapped
    · exact measured.mapped cgid member
  · simp only [Usage.move, mapped, ↓reduceIte, Gauge.step, measured.exact, room] at moved
    simp only [step, passed, Outcome.pass, reduceCtorEq, ↓reduceIte, List.length_cons, moved]

theorem refused (measured : Measured nsKey limit state lease) (mapped : state.bpf.proc.cgroup task.cgid = some nsKey)
    (full : limit.stored.toNat ≤ state.live.length) :
    (overProcLimit state.bpf task).1 = ((state.bpf.proc.noted task lease).breach task nsKey Resource.proc.reason).1 := by
  have above : ¬ lease.count < limit.stored := by rw [UInt64.lt_iff_toNat_lt, measured.exact]; omega
  exact congrArg Prod.fst (measured.sound.refused Resource.proc.reason mapped above)

theorem exit (measured : Measured nsKey limit state lease) (member : task.cgid ∈ state.live) :
    ∃ after, Measured nsKey limit (state.step (.doExit task)) after := by
  have mapped := measured.mapped task.cgid member
  obtain ⟨after, later, moved⟩ := measured.sound.use Resource.proc.reason (.release task)
  refine ⟨after, by rw [step_proc]; exact later, ?_, ?_⟩
  · intro cgid other
    rw [step_proc, ResourceMaps.use_cgroup]
    exact measured.mapped cgid (List.mem_of_mem_erase other)
  · simp only [Usage.move, mapped, ↓reduceIte, Gauge.step, measured.exact] at moved
    simp only [step, moved, List.length_erase_of_mem member]

/-- The noted top consumer is the caller exactly when it is so recorded or now surpasses the record. -/
theorem caller_top (maps : ResourceMaps) (task : Task) (lease : CpuLease) :
    task.cgid = (maps.noted task lease).topCgid ↔
      lease.topCount < maps.cgroupCounter.count task.cgid + 1 ∨ lease.topCgid = task.cgid := by
  simp only [ResourceMaps.noted, CpuLease.noteTop]
  split
  next higher => exact iff_of_true rfl (.inl higher)
  next lower => exact ⟨fun same => .inr same.symm, fun top => (top.resolve_left lower).symm⟩

/-- The step lemma: a contained event keeps the counter exact. -/
theorem step (measured : Measured nsKey limit state lease) {event : KernelEvent} (valid : state.Valid nsKey event)
    (contained : state.Contained nsKey limit event) : ∃ after, Measured nsKey limit (state.step event) after := by
  have unused (same : event.usage .proc = .idle) (live : (state.step event).live = state.live) :
      Measured nsKey limit (state.step event) lease := by
    have proc : (state.step event).bpf.proc = state.bpf.proc := by rw [step_proc, same]; rfl
    exact ⟨proc ▸ measured.sound, by rw [proc, live]; exact measured.mapped, by rw [live]; exact measured.exact⟩
  cases event with
  | fdInstall task => exact ⟨lease, unused rfl rfl⟩
  | filpClose task file => exact ⟨lease, unused (by cases file <;> rfl) rfl⟩
  | doExit task => exact measured.exit valid
  | kernelClone task =>
    by_cases room : state.live.length < limit.stored.toNat
    · exact (measured.clone valid room).2
    · have full := Nat.not_lt.mp room
      obtain ⟨_, top⟩ := contained task lease rfl full measured.sound.leased
      have killed : (overProcLimit state.bpf task).1.verdict = .kill := by
        rw [measured.refused valid full]
        simp only [CpuLease.breach, (caller_top _ _ _).mpr top, ↓reduceIte]
      obtain ⟨after, later, moved⟩ := measured.sound.use Resource.proc.reason (.acquire task)
      refine ⟨after, by rw [step_proc]; exact later, ?_, ?_⟩
      · rw [step_proc, ResourceMaps.use_cgroup]
        simpa only [Processes.step, killed, ↓reduceIte] using measured.mapped
      · simp only [Usage.move, show state.bpf.proc.cgroup task.cgid = some nsKey from valid, ↓reduceIte, Gauge.step,
          measured.exact, room] at moved
        simp only [Processes.step, killed, ↓reduceIte, moved]

theorem reported (measured : Measured nsKey limit state lease) (mapped : state.bpf.proc.cgroup task.cgid = some nsKey)
    (full : limit.stored.toNat ≤ state.live.length) :
    (react state.bpf (.kernelClone task)).1.emitted.isSome = task.reserved := by
  simp only [react, trackClone, Outcome.reaction, measured.refused mapped full, CpuLease.breach, emitBreachEvent]
  cases task.reserved <;> rfl

/-- Exits keep the counter exact, so the first clone after them cannot be in silent excess. -/
theorem exits_reported (exits : List Task) (state : Processes) (lease : CpuLease)
    (measured : Measured nsKey limit state lease) (room : task.reserved = true)
    (valid : Trace.Along Processes.step (Valid nsKey) state (exits.map .doExit ++ [.kernelClone task])) :
    Trace.Along Processes.step (Reported limit) state (exits.map .doExit ++ [.kernelClone task]) := by
  induction exits generalizing state lease with
  | nil =>
    refine ⟨?_, trivial⟩
    rintro _ ⟨⟩ full
    rw [measured.reported valid.1 full, room]
  | cons leaving exits ih =>
    obtain ⟨after, later⟩ := measured.exit valid.1
    exact ⟨(fun _ impossible => nomatch impossible), ih _ after later valid.2⟩

/-- A clone that is not contained opens a way to silent excess. A report without
room is lost at once. A clone that is reported but not stopped leaves the counter
one short when a process exits, and the next clone passes at the limit. -/
theorem uncontained (measured : Measured nsKey limit state lease) {event : KernelEvent}
    (valid : state.Valid nsKey event) (uncontained : ¬ state.Contained nsKey limit event) :
    ∃ (exits : List Task) (task : Task), task.reserved = true ∧
      Trace.Along Processes.step (Valid nsKey) state (event :: (exits.map .doExit ++ [.kernelClone task])) ∧
      ¬ Trace.Along Processes.step (Reported limit) state (event :: (exits.map .doExit ++ [.kernelClone task])) := by
  obtain ⟨task, found, rfl, full, leased, broken⟩ : ∃ task lease, event = .kernelClone task ∧
      limit.stored.toNat ≤ state.live.length ∧ state.bpf.proc.nsCounter nsKey = some lease ∧
      ¬ (task.reserved = true ∧
        (lease.topCount < state.bpf.proc.cgroupCounter.count task.cgid + 1 ∨ lease.topCgid = task.cgid)) := by
    simpa [Contained] using uncontained
  obtain rfl : found = lease := Option.some.inj (leased.symm.trans measured.sound.leased)
  have mapped : state.bpf.proc.cgroup task.cgid = some nsKey := valid
  have mappings (state : Processes) (event : KernelEvent) : (state.step event).bpf.proc.cgroup = state.bpf.proc.cgroup := by
    rw [step_proc, ResourceMaps.use_cgroup]
  by_cases room : task.reserved = true
  · have other : task.cgid ≠ (state.bpf.proc.noted task found).topCgid :=
      fun same => broken ⟨room, (caller_top _ _ _).mp same⟩
    have passedBy : (overProcLimit state.bpf task).1.verdict = .report := by
      rw [measured.refused mapped full]
      simp only [CpuLease.breach, other, ↓reduceIte]
    have live : (state.step (.kernelClone task)).live = task.cgid :: state.live := by
      simp only [Processes.step, passedBy, reduceCtorEq, ↓reduceIte]
    refine ⟨[task], task, room, ⟨valid, ?_, ?_, trivial⟩, ?_⟩
    · simp only [Valid, live, List.mem_cons, true_or]
    · simpa only [Valid, mappings] using mapped
    · rintro ⟨_, _, silent, _⟩
      -- Neither count sees the new process, but its exit lowers the counter below the limit.
      obtain ⟨held, soundHeld, countHeld⟩ := measured.sound.use Resource.proc.reason (.acquire task)
      obtain ⟨short, soundShort, countShort⟩ := soundHeld.use Resource.proc.reason (.release task)
      have bounded := UInt64.le_iff_toNat_le.mp measured.sound.bounded
      have exact := measured.exact
      simp only [Usage.move, ResourceMaps.use_cgroup, mapped, ↓reduceIte, Gauge.step] at countHeld countShort
      have room : short.count < limit.stored := by
        have := limit.stored_pos
        rw [UInt64.lt_iff_toNat_lt, countShort, countHeld]
        split <;> omega
      have later : ((state.step (.kernelClone task)).step (.doExit task)).bpf.proc =
          (state.bpf.proc.use Resource.proc.reason (.acquire task)).use Resource.proc.reason (.release task) := by
        rw [step_proc, step_proc]; rfl
      have reported := silent task rfl (by simpa only [Processes.step, passedBy, reduceCtorEq, ↓reduceIte,
        List.erase_cons_head] using full)
      have passed := clone_passes (later ▸ soundShort) (by simpa only [mappings] using mapped) room
      simp only [react, trackClone, passed] at reported
      cases reported
  · refine ⟨[], { task with reserved := true }, rfl, ⟨valid, ?_, trivial⟩, ?_⟩
    · simpa only [Valid, mappings] using mapped
    · rintro ⟨silent, _⟩
      exact room ((measured.reported mapped full).symm.trans (silent task rfl full))

end Measured

/-- However a run breaks off, and whichever processes exit then, the next clone
that finds room for a report makes no silent excess; nor did any before it. -/
def NoSilentExcess (nsKey : UInt64) (limit : PositiveLimit) (state : Processes) (events : List KernelEvent) : Prop :=
  ∀ first (exits : List Task) task, first <+: events → task.reserved = true →
    Trace.Along step (Valid nsKey) state (first ++ (exits.map .doExit ++ [.kernelClone task])) →
    Trace.Along step (Reported limit) state (first ++ (exits.map .doExit ++ [.kernelClone task]))

variable {nsKey : UInt64} {limit : PositiveLimit}

theorem Measured.no_silent_excess_iff {state : Processes} {lease : CpuLease}
    (measured : Measured nsKey limit state lease) (events : List KernelEvent)
    (valid : Trace.Along Processes.step (Valid nsKey) state events) :
    state.NoSilentExcess nsKey limit events ↔ Trace.Along Processes.step (Contained nsKey limit) state events := by
  induction events generalizing state lease with
  | nil =>
    refine iff_of_true ?_ trivial
    intro first exits task early room valid
    rw [List.prefix_nil.mp early] at valid ⊢
    exact measured.exits_reported exits state lease room valid
  | cons event rest ih =>
    constructor
    · intro excess
      have contained : state.Contained nsKey limit event := by
        by_contra uncontained
        obtain ⟨exits, task, room, going, silent⟩ := measured.uncontained valid.1 uncontained
        exact silent (excess [event] exits task ⟨rest, rfl⟩ room going)
      obtain ⟨after, later⟩ := measured.step valid.1 contained
      refine ⟨contained, (ih later valid.2).mp ?_⟩
      intro first exits task early room going
      exact (excess (event :: first) exits task (List.cons_prefix_cons.mpr ⟨rfl, early⟩) room ⟨valid.1, going⟩).2
    · rintro ⟨contained, later⟩ first exits task early room going
      obtain ⟨after, next⟩ := measured.step valid.1 contained
      cases first with
      | nil => exact measured.exits_reported exits state lease room going
      | cons other first =>
        obtain ⟨rfl, inside⟩ := List.cons_prefix_cons.mp early
        refine ⟨?_, (ih next valid.2).mpr later first exits task inside room going.2⟩
        rintro clone rfl full
        obtain ⟨reserved, _⟩ := contained clone lease rfl full measured.sound.leased
        rw [measured.reported valid.1 full, reserved]

/-- A namespace with a fresh lease and no process yet. -/
def begin (bpf : Bpf) (nsKey : UInt64) (limit : PositiveLimit) : Processes :=
  ⟨bpf.withMaps .proc (bpf.proc.enforcing nsKey limit), []⟩

end Processes

/-- No clone can be in silent excess exactly when every clone at the limit is made
by the top consumer and finds room for its report. -/
theorem no_silent_excess_iff_contained (bpf : Bpf) (nsKey : UInt64) (limit : PositiveLimit) (events : List KernelEvent)
    (valid : Trace.Along Processes.step (Processes.Valid nsKey) (.begin bpf nsKey limit) events) :
    (Processes.begin bpf nsKey limit).NoSilentExcess nsKey limit events ↔
      Trace.Along Processes.step (Processes.Contained nsKey limit) (.begin bpf nsKey limit) events := by
  have start : Processes.Measured nsKey limit (.begin bpf nsKey limit) (renewedLease none limit.value) :=
    ⟨Sound.enforcing bpf.proc nsKey limit, by simp [Processes.begin], rfl⟩
  exact start.no_silent_excess_iff events valid

/-- One cgroup clones twice under a limit of 1 and is stopped. -/
theorem no_silent_excess_iff_contained_alone :
    (Processes.begin ⟨.empty, .mapping 1 [7]⟩ 1 ⟨1, by decide⟩).NoSilentExcess 1 ⟨1, by decide⟩
      [.kernelClone ⟨7, 0, 0, 0, true⟩, .kernelClone ⟨7, 0, 0, 0, true⟩] := by
  refine (no_silent_excess_iff_contained ⟨.empty, .mapping 1 [7]⟩ 1 ⟨1, by decide⟩
    [.kernelClone ⟨7, 0, 0, 0, true⟩, .kernelClone ⟨7, 0, 0, 0, true⟩] ⟨rfl, rfl, trivial⟩).mpr ⟨?_, ?_, trivial⟩
  · rintro task lease ⟨⟩ full _
    exact absurd full (by decide)
  · rintro task lease ⟨⟩ _ leased
    obtain rfl := Option.some.inj leased
    exact ⟨rfl, .inl (by decide)⟩

/-- Under a limit of 1 cgroup 7 holds the only process. A clone by 8 is reported and
goes through, its process exits, and the next clone by 8 passes unreported. -/
theorem silent_excess :
    let clone : UInt64 → KernelEvent := fun cgid => .kernelClone ⟨cgid, 0, 0, 0, true⟩
    let start := Processes.begin ⟨.empty, .mapping 1 [7, 8]⟩ 1 ⟨1, by decide⟩
    let events := [clone 7, clone 8, .doExit ⟨8, 0, 0, 0, true⟩, clone 8]
    Trace.Along Processes.step (Processes.Valid 1) start events ∧
      ¬ Trace.Along Processes.step (Processes.Reported ⟨1, by decide⟩) start events := by
  refine ⟨⟨rfl, rfl, ?_, rfl, trivial⟩, ?_⟩
  · exact List.mem_cons_self
  · rintro ⟨_, _, _, reported, _⟩
    exact absurd (reported ⟨8, 0, 0, 0, true⟩ rfl (by decide)) (by decide)

end QuotaManager.Enforcer
