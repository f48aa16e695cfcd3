import QuotaManager.Enforcer
import QuotaManager.Logic.Workers

/-! The fentry programs of `ebpf/src/enforcer_kern.c`, one access to the maps after the
other. Several CPUs run them at the same time; only the additions and subtractions of
the `__sync` builtins read and write at once. Mappings and limits are written by the
controller alone, which does not run here, so a lookup answers with the value itself. -/

namespace QuotaManager.Enforcer

inductive LeaseField where
  | count
  | leaseBudget
  | lastUsedNs
  | topCgid
  | topCount
  deriving DecidableEq

namespace CpuLease

def get (lease : CpuLease) : LeaseField → UInt64
  | .count => lease.count
  | .leaseBudget => lease.leaseBudget
  | .lastUsedNs => lease.lastUsedNs
  | .topCgid => lease.topCgid
  | .topCount => lease.topCount

def set (lease : CpuLease) (value : UInt64) : LeaseField → CpuLease
  | .count => { lease with count := value }
  | .leaseBudget => { lease with leaseBudget := value }
  | .lastUsedNs => { lease with lastUsedNs := value }
  | .topCgid => { lease with topCgid := value }
  | .topCount => { lease with topCount := value }

end CpuLease

/-- `add` and `sub` are `__sync_fetch_and_add` and `__sync_fetch_and_sub` of 1. -/
inductive Access where
  | lookupCgroup (cgid : UInt64)
  | lookupCgroupCounter (cgid : UInt64)
  | readCgroupCounter (cgid : UInt64)
  | updateCgroupCounter (cgid value : UInt64)
  | addCgroupCounter (cgid : UInt64)
  | subCgroupCounter (cgid : UInt64)
  | lookupNsLimit (nsKey : UInt64)
  | lookupNsCounter (nsKey : UInt64)
  | readLease (nsKey : UInt64) (field : LeaseField)
  | writeLease (nsKey : UInt64) (field : LeaseField) (value : UInt64)
  | addLeaseCount (nsKey : UInt64)
  | subLeaseCount (nsKey : UInt64)
  | submit (event : BreachEvent)
  | sendSignal
  deriving DecidableEq

/-- A lookup of a counter or a lease answers whether there is one. -/
abbrev Access.Reply : Access → Type
  | .lookupCgroup _ | .lookupNsLimit _ => Option UInt64
  | .lookupCgroupCounter _ | .lookupNsCounter _ => Bool
  | .readCgroupCounter _ | .readLease _ _ => UInt64
  | .updateCgroupCounter _ _ | .addCgroupCounter _ | .subCgroupCounter _ => Unit
  | .writeLease _ _ _ | .addLeaseCount _ | .subLeaseCount _ | .submit _ | .sendSignal => Unit

namespace ResourceMaps

def editCounter (maps : ResourceMaps) (cgid : UInt64) (change : UInt64 → UInt64) : ResourceMaps :=
  match maps.cgroupCounter cgid with
  | none => maps
  | some count => { maps with cgroupCounter := maps.cgroupCounter.update cgid (change count) }

def editLease (maps : ResourceMaps) (nsKey : UInt64) (change : CpuLease → CpuLease) : ResourceMaps :=
  match maps.nsCounter nsKey with
  | none => maps
  | some lease => { maps with nsCounter := maps.nsCounter.update nsKey (change lease) }

/-- One access. What a pointer leads to after its entry has gone is not modelled: it
reads as zero, and a change is lost. -/
def serve (maps : ResourceMaps) : (access : Access) → access.Reply × ResourceMaps
  | .lookupCgroup cgid => (maps.cgroup cgid, maps)
  | .lookupCgroupCounter cgid => ((maps.cgroupCounter cgid).isSome, maps)
  | .readCgroupCounter cgid => ((maps.cgroupCounter cgid).getD 0, maps)
  | .updateCgroupCounter cgid value => ((), { maps with cgroupCounter := maps.cgroupCounter.update cgid value })
  | .addCgroupCounter cgid => ((), maps.editCounter cgid (· + 1))
  | .subCgroupCounter cgid => ((), maps.editCounter cgid (· - 1))
  | .lookupNsLimit nsKey => (maps.nsLimit nsKey, maps)
  | .lookupNsCounter nsKey => ((maps.nsCounter nsKey).isSome, maps)
  | .readLease nsKey field => ((maps.nsCounter nsKey).elim 0 (·.get field), maps)
  | .writeLease nsKey field value => ((), maps.editLease nsKey (·.set value field))
  | .addLeaseCount nsKey => ((), maps.editLease nsKey fun lease => { lease with count := lease.count + 1 })
  | .subLeaseCount nsKey => ((), maps.editLease nsKey fun lease => { lease with count := lease.count - 1 })
  | .submit _ => ((), maps)
  | .sendSignal => ((), maps)

end ResourceMaps

abbrev Code (α : Type) := Program Access Access.Reply α

abbrev access (request : Access) : Code request.Reply := Program.call request

/-- `record_cgroup_inc` and `record_proc_cgroup_inc`. -/
def recordCgroupInc (cgid : UInt64) : Code Unit := do
  match ← access (.lookupCgroupCounter cgid) with
  | false => access (.updateCgroupCounter cgid 1)
  | true => access (.addCgroupCounter cgid)

/-- `record_cgroup_dec` and `record_proc_cgroup_dec`. -/
def recordCgroupDec (cgid : UInt64) : Code Unit := do
  match ← access (.lookupCgroupCounter cgid) with
  | false => return
  | true =>
    let count ← access (.readCgroupCounter cgid)
    if count > 0 then access (.subCgroupCounter cgid) else return

/-- The caller's counter is read once more when it becomes the record. -/
def noteTop (nsKey cgid : UInt64) : Code Unit := do
  match ← access (.lookupCgroupCounter cgid) with
  | false => return
  | true =>
    let cgCount ← access (.readCgroupCounter cgid)
    let topCount ← access (.readLease nsKey .topCount)
    if cgCount > topCount then do
      access (.writeLease nsKey .topCgid cgid)
      let cgCount ← access (.readCgroupCounter cgid)
      access (.writeLease nsKey .topCount cgCount)
    else return

def submitEvent : Option BreachEvent → Code Unit
  | none => return
  | some evt => access (.submit evt)

/-- The top consumer is read for the record and again for the return code. -/
def breach (task : Task) (nsKey : UInt64) (reason : UInt32) : Code Outcome := do
  let topCgid ← access (.readLease nsKey .topCgid)
  let emitted := emitBreachEvent task nsKey task.cgid topCgid reason
  submitEvent emitted
  let topCgid ← access (.readLease nsKey .topCgid)
  return ⟨if task.cgid = topCgid then .kill else .report, emitted⟩

/-- `lease->lease_budget += step` is no atomic addition. -/
def expand (nsKey limit : UInt64) : Code Unit := do
  let step := CpuLease.expansion limit
  let budget ← access (.readLease nsKey .leaseBudget)
  if budget + step ≤ limit then do
    let budget ← access (.readLease nsKey .leaseBudget)
    access (.writeLease nsKey .leaseBudget (budget + step))
  else access (.writeLease nsKey .leaseBudget limit)

/-- Whether the count has reached the budget. -/
def spent (nsKey : UInt64) : Code Bool := do
  let count ← access (.readLease nsKey .count)
  let budget ← access (.readLease nsKey .leaseBudget)
  return decide (count ≥ budget)

def accept (nsKey : UInt64) : Code Outcome := do
  access (.addLeaseCount nsKey)
  return .pass

def charge (task : Task) (nsKey limit : UInt64) (reason : UInt32) : Code Outcome := do
  let count ← access (.readLease nsKey .count)
  if count ≥ limit then breach task nsKey reason
  else
    match ← spent nsKey with
    | false => accept nsKey
    | true => do
      expand nsKey limit
      match ← spent nsKey with
      | false => accept nsKey
      | true => breach task nsKey reason

/-- `over_limit` and `over_proc_limit`. -/
def overLimitCode (task : Task) (reason : UInt32) : Code Outcome := do
  match ← access (.lookupCgroup task.cgid) with
  | none => return .pass
  | some nsKey =>
    recordCgroupInc task.cgid
    match ← access (.lookupNsLimit nsKey) with
    | none => return .pass
    | some limit =>
      if limit = 0 then return .pass
      else
        match ← access (.lookupNsCounter nsKey) with
        | false => return .pass
        | true =>
          noteTop nsKey task.cgid
          access (.writeLease nsKey .lastUsedNs task.usedAt)
          charge task nsKey limit reason

def sendSignal : Verdict → Code Unit
  | .kill => access .sendSignal
  | .allow | .report => return

/-- `track_install_fd` and `track_clone`. -/
def acquireCode (task : Task) (reason : UInt32) : Code Reaction := do
  let outcome ← overLimitCode task reason
  sendSignal outcome.verdict
  return outcome.reaction

/-- `track_close_fd` after its filter, and `track_exit`. -/
def releaseCode (task : Task) : Code Reaction := do
  recordCgroupDec task.cgid
  match ← access (.lookupCgroup task.cgid) with
  | none => return .none
  | some nsKey =>
    match ← access (.lookupNsCounter nsKey) with
    | false => return .none
    | true =>
      let count ← access (.readLease nsKey .count)
      if count = 0 then return .none
      else do
        access (.subLeaseCount nsKey)
        access (.writeLease nsKey .lastUsedNs task.usedAt)
        return .none

def Usage.code (reason : UInt32) : Usage → Code Reaction
  | .acquire task => acquireCode task reason
  | .release task => releaseCode task
  | .idle => return .none

/-- Any number of programs at once. The per-cgroup counters lie in an LRU map: they may
be evicted, or become anything when an entry is used again under an old pointer. -/
def fentryPrograms (reason : UInt32) :
    Machine ResourceMaps Usage Unit (BpfMap UInt64) Unit Access Access.Reply where
  body usage _ := do
    let _ ← usage.code reason
  serve maps _ access _ := maps.serve access
  drift maps counters := { maps with cgroupCounter := counters }

end QuotaManager.Enforcer
