import QuotaManager.Proofs.Accounting
import QuotaManager.Logic.Trace

/-! The descriptor counter against the descriptors that are open. Every descriptor
is counted when it is installed, but only the close of a file's last descriptor is
counted back. The two agree as long as no file is closed while it is shared. -/

namespace QuotaManager.Enforcer

/-- A loaded object and, for each open descriptor, the file behind it. -/
structure Descriptors where
  bpf : Bpf
  files : List Nat

/-- What the tasks of a namespace do with descriptors. -/
inductive FileEvent where
  | openFile (task : Task) (file : Nat)
  | duplicate (task : Task) (file : Nat)
  | close (task : Task) (file : Nat)

namespace FileEvent

def task : FileEvent → Task
  | .openFile task _ | .duplicate task _ | .close task _ => task

/-- The kernel call that the event makes. A close still counts the closed descriptor. -/
def call (files : List Nat) : FileEvent → KernelEvent
  | .openFile task _ | .duplicate task _ => .fdInstall task
  | .close task file => .filpClose task (some (Int64.ofNat (files.count file)))

end FileEvent

namespace Descriptors

def step (state : Descriptors) (event : FileEvent) : Descriptors where
  bpf := state.bpf.after (event.call state.files)
  files :=
    match event with
    | .openFile _ file | .duplicate _ file => file :: state.files
    | .close _ file => state.files.erase file

/-- Tasks are in the namespace, an opened file is new, a duplicated or closed one is
open, and the number of open descriptors stays below the limit. -/
def Valid (nsKey : UInt64) (limit : PositiveLimit) (state : Descriptors) (event : FileEvent) : Prop :=
  state.bpf.fd.cgroup event.task.cgid = some nsKey ∧
  match event with
  | .openFile _ file => file ∉ state.files ∧ state.files.length + 1 < limit.stored.toNat
  | .duplicate _ file => file ∈ state.files ∧ state.files.length + 1 < limit.stored.toNat
  | .close _ file => file ∈ state.files

/-- The lease counts the open descriptors. -/
def Exact (nsKey : UInt64) (state : Descriptors) : Prop :=
  ∃ lease, state.bpf.fd.nsCounter nsKey = some lease ∧ lease.count.toNat = state.files.length

/-- A descriptor is closed only when it is its file's last. -/
def Unshared (state : Descriptors) (event : FileEvent) : Prop :=
  ∀ task file, event = .close task file → state.files.count file = 1

/-- What every run keeps, exact or not. -/
structure Kept (nsKey : UInt64) (limit : PositiveLimit) (state : Descriptors) : Prop where
  sound : ∃ lease, Sound state.bpf.fd nsKey limit.stored lease
  below : state.files.length < limit.stored.toNat

variable {nsKey : UInt64} {limit : PositiveLimit} {state : Descriptors}

theorem step_fd (state : Descriptors) (event : FileEvent) :
    (state.step event).bpf.fd = state.bpf.fd.use Resource.fd.reason ((event.call state.files).usage .fd) :=
  state.bpf.after_maps (event.call state.files) .fd

theorem Kept.step (kept : Kept nsKey limit state) {event : FileEvent} (valid : state.Valid nsKey limit event) :
    Kept nsKey limit (state.step event) := by
  obtain ⟨⟨lease, sound⟩, below⟩ := kept
  obtain ⟨after, later, _⟩ := sound.use Resource.fd.reason ((event.call state.files).usage .fd)
  refine ⟨⟨after, by rw [step_fd]; exact later⟩, ?_⟩
  cases event with
  | openFile task file => exact valid.2.2
  | duplicate task file => exact valid.2.2
  | close task file => exact Nat.lt_of_le_of_lt (List.length_erase_le) below

/-- The program takes a file for shared exactly when another descriptor refers to it. -/
theorem Kept.shared_iff (kept : Kept nsKey limit state) (file : Nat) :
    Int64.ofNat (state.files.count file) > 1 ↔ 1 < state.files.count file := by
  have within : state.files.count file ≤ state.files.length := List.count_le_length
  have := kept.below
  have := limit.stored_lt
  rw [gt_iff_lt, Int64.lt_iff_toInt_lt, Int64.toInt_ofNat_of_lt (by omega)]
  simp only [Int64.reduceToInt]
  omega

/-- The accounting of one event on an exact counter. -/
theorem step_exact (kept : Kept nsKey limit state) (exact : state.Exact nsKey) {event : FileEvent}
    (valid : state.Valid nsKey limit event) : (state.step event).Exact nsKey ↔ state.Unshared event := by
  obtain ⟨found, leased, counted⟩ := exact
  obtain ⟨lease, sound⟩ := kept.sound
  obtain rfl : found = lease := Option.some.inj (leased.symm.trans sound.leased)
  obtain ⟨after, later, moved⟩ := sound.use Resource.fd.reason ((event.call state.files).usage .fd)
  have reading : (state.step event).Exact nsKey ↔ after.count.toNat = (state.step event).files.length := by
    have stored : (state.step event).bpf.fd.nsCounter nsKey = some after := by rw [step_fd]; exact later.leased
    simp only [Exact, stored, Option.some.injEq, exists_eq_left']
  have below := kept.below
  obtain ⟨mapped, valid⟩ := valid
  rw [reading, moved]
  cases event with
  | openFile task file =>
    refine iff_of_true ?_ (fun _ _ impossible => by cases impossible)
    simp only [FileEvent.call, KernelEvent.usage, Usage.move, show state.bpf.fd.cgroup task.cgid = some nsKey from mapped,
      ↓reduceIte, Gauge.step, counted, below, step, List.length_cons]
  | duplicate task file =>
    refine iff_of_true ?_ (fun _ _ impossible => by cases impossible)
    simp only [FileEvent.call, KernelEvent.usage, Usage.move, show state.bpf.fd.cgroup task.cgid = some nsKey from mapped,
      ↓reduceIte, Gauge.step, counted, below, step, List.length_cons]
  | close task file =>
    have opened : 0 < state.files.count file := List.count_pos_iff.mpr valid
    have nonempty : 0 < state.files.length := List.length_pos_of_mem valid
    have fewer : ((state.step (.close task file)).files).length = state.files.length - 1 := List.length_erase_of_mem valid
    have unshared : state.Unshared (.close task file) ↔ state.files.count file = 1 :=
      ⟨fun holds => holds task file rfl, by rintro holds _ _ ⟨⟩; exact holds⟩
    simp only [FileEvent.call, KernelEvent.usage, kept.shared_iff, unshared, fewer]
    split
    next shared =>
      refine iff_of_false ?_ (by omega)
      simp only [Usage.move, Gauge.step, counted]
      omega
    next last =>
      refine iff_of_true ?_ (by omega)
      simp only [Usage.move, show state.bpf.fd.cgroup task.cgid = some nsKey from mapped, ↓reduceIte, Gauge.step, counted]

/-- A namespace with a fresh lease and no open descriptor. -/
def begin (bpf : Bpf) (nsKey : UInt64) (limit : PositiveLimit) : Descriptors :=
  ⟨bpf.withMaps .fd (bpf.fd.enforcing nsKey limit), []⟩

end Descriptors

/-- The counter is exact throughout a run exactly when the run closes no shared file. -/
theorem exact_iff_unshared (bpf : Bpf) (nsKey : UInt64) (limit : PositiveLimit) (events : List FileEvent)
    (valid : Trace.Along Descriptors.step (Descriptors.Valid nsKey limit) (.begin bpf nsKey limit) events) :
    Trace.Throughout Descriptors.step (Descriptors.Exact nsKey) (.begin bpf nsKey limit) events ↔
      Trace.Along Descriptors.step Descriptors.Unshared (.begin bpf nsKey limit) events := by
  have sound := Sound.enforcing bpf.fd nsKey limit
  refine Trace.Throughout.iff_along (Descriptors.Kept nsKey limit) valid ⟨⟨_, sound⟩, limit.stored_pos⟩
    ⟨_, sound.leased, rfl⟩ ?_ ?_
  · exact fun _ _ kept valid => kept.step valid
  · exact fun _ _ kept valid exact => Descriptors.step_exact kept exact valid

/-- Three files by two cgroups. One is duplicated and stays open, the others are closed. -/
theorem exact_iff_unshared_kept_open :
    let task (cgid : UInt64) : Task := ⟨cgid, 0, 0, 0, true⟩
    let start := Descriptors.begin ⟨.mapping 1 [7, 8], .empty⟩ 1 ⟨10, by decide⟩
    let events := [FileEvent.openFile (task 7) 0, .openFile (task 8) 1, .duplicate (task 7) 0, .close (task 8) 1,
      .openFile (task 7) 2, .close (task 8) 2]
    (Trace.run Descriptors.step start events).files = [0, 0] ∧ Trace.Throughout Descriptors.step (Descriptors.Exact 1) start events := by
  intro task start events
  have valid : Trace.Along Descriptors.step (Descriptors.Valid 1 ⟨10, by decide⟩) start events := by
    refine ⟨?_, ?_, ?_, ?_, ?_, ?_, trivial⟩
    all_goals
      unfold Descriptors.Valid
      decide +kernel
  refine ⟨by decide +kernel, (exact_iff_unshared ⟨.mapping 1 [7, 8], .empty⟩ 1 ⟨10, by decide⟩ events valid).mpr ?_⟩
  refine ⟨nofun, nofun, nofun, ?_, nofun, ?_, trivial⟩
  all_goals
    rintro closer file ⟨⟩
    decide +kernel

/-- A file is opened, duplicated, and closed twice; the lease still counts one descriptor. -/
theorem duplicate_stays_counted :
    let task : Task := ⟨7, 0, 0, 0, true⟩
    let start := Descriptors.begin ⟨.mapping 1 [7], .empty⟩ 1 ⟨10, by decide⟩
    let events := [FileEvent.openFile task 0, .duplicate task 0, .close task 0, .close task 0]
    Trace.Along Descriptors.step (Descriptors.Valid 1 ⟨10, by decide⟩) start events ∧
      (Trace.run Descriptors.step start events).files = [] ∧
      ¬ (Trace.run Descriptors.step start events).Exact 1 := by
  refine ⟨⟨⟨rfl, by decide, by decide⟩, ⟨rfl, List.mem_cons_self, by decide⟩, ⟨rfl, List.mem_cons_self⟩,
    ⟨rfl, List.mem_cons_self⟩, trivial⟩, by decide, ?_⟩
  rintro ⟨lease, leased, counted⟩
  obtain rfl := Option.some.inj leased
  exact absurd counted (by decide)

end QuotaManager.Enforcer
