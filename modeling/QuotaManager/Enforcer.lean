import Mathlib.Logic.Function.Basic

/-! The fentry programs of `ebpf/src/enforcer_kern.c` over their BPF maps. The
file-descriptor half and the process half run the same code over two sets of
maps; each source function keeps its own name here, applied to its own half. -/

namespace QuotaManager.Enforcer

/-- A BPF hash map with 64-bit keys. Eviction and capacity are not modelled. -/
abbrev BpfMap (β : Type) := UInt64 → Option β

namespace BpfMap

def empty {β : Type} : BpfMap β := fun _ => none

/-- `bpf_map_update_elem` with `BPF_ANY`. -/
def update {β : Type} (map : BpfMap β) (key : UInt64) (value : β) : BpfMap β :=
  Function.update map key (some value)

def delete {β : Type} (map : BpfMap β) (key : UInt64) : BpfMap β :=
  Function.update map key none

variable {β : Type} (map : BpfMap β) (key other : UInt64) (value : β)

@[simp] theorem update_self : map.update key value key = some value := by simp [update]

theorem update_of_ne (different : other ≠ key) : map.update key value other = map other := by
  simp [update, different]

@[simp] theorem delete_self : map.delete key key = none := by simp [delete]

theorem delete_of_ne (different : other ≠ key) : map.delete key other = map other := by
  simp [delete, different]

end BpfMap

/-- `struct cpu_lease`: the usage of one namespace on this node. -/
structure CpuLease where
  count : UInt64
  leaseBudget : UInt64
  lastUsedNs : UInt64
  topCgid : UInt64
  topCount : UInt64
  deriving DecidableEq, Repr

inductive Resource where
  | fd
  | proc
  deriving DecidableEq, Repr

/-- `REASON_FD` and `REASON_PROC`. -/
def Resource.reason : Resource → UInt32
  | .fd => 0
  | .proc => 1

structure BreachEvent where
  nsKey : UInt64
  cgid : UInt64
  pid : UInt32
  reason : UInt32
  timestamp : UInt64
  topCgid : UInt64
  deriving DecidableEq, Repr

/-- What the BPF helpers answer while one program runs. `usedAt` and `emittedAt`
are the two readings of `bpf_ktime_get_ns`; `reserved` tells whether the ring
buffer had room for a record. -/
structure Task where
  cgid : UInt64
  pidTgid : UInt64
  usedAt : UInt64
  emittedAt : UInt64
  reserved : Bool
  deriving DecidableEq, Repr

def emitBreachEvent (task : Task) (nsKey cgid topCgid : UInt64) (reason : UInt32) : Option BreachEvent :=
  if task.reserved then
    some {
      nsKey, cgid, reason, topCgid
      pid := (task.pidTgid >>> 32).toUInt32
      timestamp := task.emittedAt }
  else none

/-- The return codes of the limit checks: 0 lets the caller go on, 1 names the
caller as top consumer, 2 reports the breach without touching the caller. -/
inductive Verdict where
  | allow
  | kill
  | report
  deriving DecidableEq, Repr

structure Outcome where
  verdict : Verdict
  emitted : Option BreachEvent
  deriving DecidableEq, Repr

def Outcome.pass : Outcome := ⟨.allow, none⟩

namespace CpuLease

/-- The top consumer is replaced only by a strictly larger counter. -/
def noteTop (lease : CpuLease) (cgid : UInt64) (cgCount : Option UInt64) : CpuLease :=
  match cgCount with
  | some n => if n > lease.topCount then { lease with topCgid := cgid, topCount := n } else lease
  | none => lease

/-- The amount by which a spent budget grows: a tenth of the limit, kept within
10 and 100. -/
def expansion (limit : UInt64) : UInt64 :=
  let step := limit / 10
  let step := if step < 10 then 10 else step
  if step > 100 then 100 else step

def expand (lease : CpuLease) (limit : UInt64) : CpuLease :=
  if lease.leaseBudget + expansion limit ≤ limit then
    { lease with leaseBudget := lease.leaseBudget + expansion limit }
  else
    { lease with leaseBudget := limit }

def breach (lease : CpuLease) (task : Task) (nsKey : UInt64) (reason : UInt32) : Outcome × CpuLease :=
  (⟨if task.cgid = lease.topCgid then .kill else .report,
    emitBreachEvent task nsKey task.cgid lease.topCgid reason⟩, lease)

def accept (lease : CpuLease) : Outcome × CpuLease :=
  (.pass, { lease with count := lease.count + 1 })

/-- The tail of a limit check, once limit and lease are known. -/
def charge (lease : CpuLease) (limit : UInt64) (task : Task) (nsKey : UInt64) (reason : UInt32) :
    Outcome × CpuLease :=
  if lease.count ≥ limit then
    lease.breach task nsKey reason
  else if lease.count ≥ lease.leaseBudget then
    let lease := lease.expand limit
    if lease.count ≥ lease.leaseBudget then
      lease.breach task nsKey reason
    else
      lease.accept
  else
    lease.accept

end CpuLease

/-- The maps of one resource. -/
structure ResourceMaps where
  cgroup : BpfMap UInt64
  cgroupCounter : BpfMap UInt64
  nsLimit : BpfMap UInt64
  nsCounter : BpfMap CpuLease

namespace ResourceMaps

def empty : ResourceMaps := ⟨.empty, .empty, .empty, .empty⟩

def recordInc (maps : ResourceMaps) (cgid : UInt64) : ResourceMaps :=
  match maps.cgroupCounter cgid with
  | none => { maps with cgroupCounter := maps.cgroupCounter.update cgid 1 }
  | some count => { maps with cgroupCounter := maps.cgroupCounter.update cgid (count + 1) }

def recordDec (maps : ResourceMaps) (cgid : UInt64) : ResourceMaps :=
  match maps.cgroupCounter cgid with
  | some count =>
    if count > 0 then { maps with cgroupCounter := maps.cgroupCounter.update cgid (count - 1) } else maps
  | none => maps

/-- The limit check run by a task that takes one more unit of the resource. -/
def check (maps : ResourceMaps) (task : Task) (reason : UInt32) : Outcome × ResourceMaps :=
  match maps.cgroup task.cgid with
  | none => (.pass, maps)
  | some nsKey =>
    let maps := maps.recordInc task.cgid
    match maps.nsLimit nsKey with
    | none => (.pass, maps)
    | some limit =>
      if limit = 0 then (.pass, maps) else
      match maps.nsCounter nsKey with
      | none => (.pass, maps)
      | some lease =>
        let lease := lease.noteTop task.cgid (maps.cgroupCounter task.cgid)
        let lease := { lease with lastUsedNs := task.usedAt }
        let (outcome, lease) := lease.charge limit task nsKey reason
        (outcome, { maps with nsCounter := maps.nsCounter.update nsKey lease })

/-- A task gives one unit of the resource back. -/
def release (maps : ResourceMaps) (task : Task) : ResourceMaps :=
  let maps := maps.recordDec task.cgid
  match maps.cgroup task.cgid with
  | none => maps
  | some nsKey =>
    match maps.nsCounter nsKey with
    | none => maps
    | some lease =>
      if lease.count = 0 then maps else
      let lease := { lease with count := lease.count - 1, lastUsedNs := task.usedAt }
      { maps with nsCounter := maps.nsCounter.update nsKey lease }

end ResourceMaps

/-- All counting maps of the loaded object. -/
structure Bpf where
  fd : ResourceMaps
  proc : ResourceMaps

namespace Bpf

def empty : Bpf := ⟨.empty, .empty⟩

def maps (bpf : Bpf) : Resource → ResourceMaps
  | .fd => bpf.fd
  | .proc => bpf.proc

def withMaps (bpf : Bpf) (resource : Resource) (maps : ResourceMaps) : Bpf :=
  match resource with
  | .fd => { bpf with fd := maps }
  | .proc => { bpf with proc := maps }

def check (bpf : Bpf) (resource : Resource) (task : Task) : Outcome × Bpf :=
  let (outcome, maps) := (bpf.maps resource).check task resource.reason
  (outcome, bpf.withMaps resource maps)

def release (bpf : Bpf) (resource : Resource) (task : Task) : Bpf :=
  bpf.withMaps resource ((bpf.maps resource).release task)

@[simp] theorem withMaps_maps (bpf : Bpf) (resource : Resource) (maps : ResourceMaps) :
    (bpf.withMaps resource maps).maps resource = maps := by
  cases resource <;> rfl

theorem withMaps_other (bpf : Bpf) {resource other : Resource} (maps : ResourceMaps) (different : other ≠ resource) :
    (bpf.withMaps resource maps).maps other = bpf.maps other := by
  cases resource <;> cases other <;> first | rfl | exact (different rfl).elim

theorem check_outcome (bpf : Bpf) (resource : Resource) (task : Task) :
    (bpf.check resource task).1 = ((bpf.maps resource).check task resource.reason).1 := rfl

end Bpf

def overLimit (bpf : Bpf) (task : Task) : Outcome × Bpf := bpf.check .fd task

def overProcLimit (bpf : Bpf) (task : Task) : Outcome × Bpf := bpf.check .proc task

/-- What a program does besides updating maps: the record it submits and whether
it sends SIGKILL to the current process. -/
structure Reaction where
  emitted : Option BreachEvent
  signalled : Bool
  deriving DecidableEq, Repr

def Outcome.reaction (outcome : Outcome) : Reaction := ⟨outcome.emitted, outcome.verdict == .kill⟩

def Reaction.none : Reaction := ⟨Option.none, false⟩

def trackInstallFd (bpf : Bpf) (task : Task) : Reaction × Bpf :=
  let (outcome, bpf) := overLimit bpf task
  (outcome.reaction, bpf)

/-- `file` is the `f_count` of the closed file, or `none` for a null pointer. A
file that is still shared is left alone. -/
def trackCloseFd (bpf : Bpf) (task : Task) (file : Option Int64) : Reaction × Bpf :=
  match file with
  | none => (.none, bpf)
  | some refs => if refs > 1 then (.none, bpf) else (.none, bpf.release .fd task)

def trackClone (bpf : Bpf) (task : Task) : Reaction × Bpf :=
  let (outcome, bpf) := overProcLimit bpf task
  (outcome.reaction, bpf)

/-- Decrementing only a positive count is `release`; nothing else is filtered. -/
def trackExit (bpf : Bpf) (task : Task) : Reaction × Bpf := (.none, bpf.release .proc task)

inductive KernelEvent where
  | fdInstall (task : Task)
  | filpClose (task : Task) (file : Option Int64)
  | kernelClone (task : Task)
  | doExit (task : Task)
  deriving DecidableEq

def react (bpf : Bpf) : KernelEvent → Reaction × Bpf
  | .fdInstall task => trackInstallFd bpf task
  | .filpClose task file => trackCloseFd bpf task file
  | .kernelClone task => trackClone bpf task
  | .doExit task => trackExit bpf task

def Bpf.after (bpf : Bpf) (event : KernelEvent) : Bpf := (react bpf event).2

/-- The part of an event that one resource sees. -/
inductive Usage where
  | acquire (task : Task)
  | release (task : Task)
  | idle
  deriving DecidableEq

def KernelEvent.usage : KernelEvent → Resource → Usage
  | .fdInstall task, .fd => .acquire task
  | .filpClose task (some refs), .fd => if refs > 1 then .idle else .release task
  | .kernelClone task, .proc => .acquire task
  | .doExit task, .proc => .release task
  | _, _ => .idle

/-- The kernel event by which a resource is taken. -/
def Resource.acquire (resource : Resource) (task : Task) : KernelEvent :=
  match resource with
  | .fd => .fdInstall task
  | .proc => .kernelClone task

/-- The kernel event by which a resource is given back; a file's last reference. -/
def Resource.release (resource : Resource) (task : Task) : KernelEvent :=
  match resource with
  | .fd => .filpClose task (some 1)
  | .proc => .doExit task

@[simp] theorem Resource.acquire_usage (resource : Resource) (task : Task) :
    (resource.acquire task).usage resource = .acquire task := by
  cases resource <;> rfl

@[simp] theorem Resource.release_usage (resource : Resource) (task : Task) :
    (resource.release task).usage resource = .release task := by
  cases resource <;> rfl

/-- The program behind an acquiring event is the resource's limit check. -/
theorem Resource.react_acquire (resource : Resource) (bpf : Bpf) (task : Task) :
    react bpf (resource.acquire task) = ((bpf.check resource task).1.reaction, (bpf.check resource task).2) := by
  cases resource <;> rfl

def ResourceMaps.use (reason : UInt32) (maps : ResourceMaps) : Usage → ResourceMaps
  | .acquire task => (maps.check task reason).2
  | .release task => maps.release task
  | .idle => maps

/-- Each half of the object runs on its own: an event reaches a resource only
through what that resource sees of it. -/
theorem Bpf.after_maps (bpf : Bpf) (event : KernelEvent) (resource : Resource) :
    (bpf.after event).maps resource = (bpf.maps resource).use resource.reason (event.usage resource) := by
  cases event with
  | fdInstall task => cases resource <;> rfl
  | filpClose task file =>
    cases file with
    | none => cases resource <;> rfl
    | some refs =>
      simp only [after, react, trackCloseFd]
      by_cases shared : refs > 1 <;> cases resource <;> simp [shared, KernelEvent.usage, ResourceMaps.use,
        Bpf.release, withMaps, maps]
  | kernelClone task => cases resource <;> rfl
  | doExit task => cases resource <;> rfl

end QuotaManager.Enforcer
