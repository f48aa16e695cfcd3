import QuotaManager.Enforcer

/-! The map operations of `syncer.go` on a loaded object: what one `Update`,
`Delete` or counter reset does to the maps of a resource. -/

namespace QuotaManager.Enforcer

/-- The budget a reset writes: the whole limit up to 100, else a tenth of it. -/
def microSlice (limit : Int64) : UInt64 :=
  if limit > 100 then (limit / 10).toUInt64 else limit.toUInt64

/-- The record that `resetNsCounter` writes after its `Lookup`: an existing lease
with a new budget, else a lease that has counted nothing. -/
def renewedLease (existing : Option CpuLease) (limit : Int64) : CpuLease :=
  match existing with
  | some lease => { lease with leaseBudget := microSlice limit }
  | none => { count := 0, leaseBudget := microSlice limit, lastUsedNs := 0, topCgid := 0, topCount := 0 }

namespace ResourceMaps

/-- The limit is stored with the bits of its `int64`. -/
def updateNsLimit (maps : ResourceMaps) (nsKey : UInt64) (limit : Int64) : ResourceMaps :=
  { maps with nsLimit := maps.nsLimit.update nsKey limit.toUInt64 }

def deleteNsLimit (maps : ResourceMaps) (nsKey : UInt64) : ResourceMaps :=
  { maps with nsLimit := maps.nsLimit.delete nsKey }

def updateNsCounter (maps : ResourceMaps) (nsKey : UInt64) (lease : CpuLease) : ResourceMaps :=
  { maps with nsCounter := maps.nsCounter.update nsKey lease }

/-- `Lookup` and `Update` with nothing in between. -/
def resetNsCounter (maps : ResourceMaps) (nsKey : UInt64) (limit : Int64) : ResourceMaps :=
  maps.updateNsCounter nsKey (renewedLease (maps.nsCounter nsKey) limit)

def deleteNsCounter (maps : ResourceMaps) (nsKey : UInt64) : ResourceMaps :=
  { maps with nsCounter := maps.nsCounter.delete nsKey }

def updateCgroupMapping (maps : ResourceMaps) (cgroupID nsKey : UInt64) : ResourceMaps :=
  { maps with cgroup := maps.cgroup.update cgroupID nsKey }

/-- The per-cgroup counter goes with the mapping. -/
def deleteCgroupMapping (maps : ResourceMaps) (cgroupID : UInt64) : ResourceMaps :=
  { maps with
    cgroup := maps.cgroup.delete cgroupID
    cgroupCounter := maps.cgroupCounter.delete cgroupID }

/-- Maps in which these cgroups belong to one namespace and nothing is counted yet. -/
def mapping (nsKey : UInt64) (cgroups : List UInt64) : ResourceMaps :=
  cgroups.foldl (fun maps cgroupID => maps.updateCgroupMapping cgroupID nsKey) .empty

end ResourceMaps

/-- A limit that `fd_ns_limit` enforces: a positive `int64`. -/
structure PositiveLimit where
  value : Int64
  positive : 0 < value
  deriving DecidableEq

namespace PositiveLimit

/-- The limit as the kernel reads it. -/
def stored (limit : PositiveLimit) : UInt64 := limit.value.toUInt64

end PositiveLimit

/-- Both writes of a re-sync when no event comes in between: states that runs start from. -/
def ResourceMaps.resync (maps : ResourceMaps) (nsKey : UInt64) (limit : PositiveLimit) : ResourceMaps :=
  (maps.updateNsLimit nsKey limit.value).resetNsCounter nsKey limit.value

/-- The maps right after a first re-sync with this limit. -/
def ResourceMaps.enforcing (maps : ResourceMaps) (nsKey : UInt64) (limit : PositiveLimit) : ResourceMaps :=
  (maps.deleteNsCounter nsKey).resync nsKey limit

end QuotaManager.Enforcer
