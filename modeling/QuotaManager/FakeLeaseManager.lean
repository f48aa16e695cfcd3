import QuotaManager.LeaseManager

/-! The lease manager of `lease_test.go`, which keeps its pools in memory, and the status
that it and the real one report. -/

namespace QuotaManager

structure LeaseStatus where
  totalLimit : Int64
  allocatedCredits : Int64
  nodeLeases : Allocations

/-- Unlike a request this takes the namespace as it is. -/
def K8sLeaseManager.getStatus (ns : String) : Action (Option LeaseStatus) := do
  match ← perform (.getQuota ns ns) with
  | none => return none
  | some quota =>
    return some {
      totalLimit := quota.spec.fileDescriptors.getD 0
      allocatedCredits := (Checked.sum (amounts quota.status.fdAllocations)).value
      nodeLeases := quota.status.fdAllocations }

structure FakePool where
  totalLimit : Int64
  allocatedCredits : Int64
  nodeLeases : Allocations

structure FakeLeaseManager where
  pools : String → Option FakePool

namespace FakeLeaseManager

def newFakeLeaseManager : FakeLeaseManager := ⟨fun _ => none⟩

variable (f : FakeLeaseManager)

def put (ns : String) (p : FakePool) : FakeLeaseManager := ⟨Function.update f.pools ns (some p)⟩

def setGlobalPool (ns : String) (totalLimit : Int64) : FakeLeaseManager :=
  match f.pools ns with
  | none => f.put ns { totalLimit, allocatedCredits := 0, nodeLeases := ∅ }
  | some p => f.put ns { p with totalLimit }

def requestLease (ns nodeID : String) (requested : Int64) : Except String Int64 × FakeLeaseManager :=
  match f.pools ns with
  | none => (.error ("no global quota pool for namespace " ++ ns), f)
  | some p =>
    let requested :=
      if requested ≤ 0 then
        let requested := p.totalLimit / 10
        let requested := if p.totalLimit ≤ 100 then p.totalLimit else requested
        let requested := max requested 10
        let requested := min requested 1000
        min requested p.totalLimit
      else requested
    let remaining := p.totalLimit - p.allocatedCredits
    if remaining ≤ 0 then (.ok ((p.nodeLeases.lookup nodeID).getD 0), f)
    else
      let grant := min requested remaining
      let leased := (p.nodeLeases.lookup nodeID).getD 0 + grant
      (.ok leased, f.put ns { p with
        allocatedCredits := p.allocatedCredits + grant
        nodeLeases := p.nodeLeases.insert nodeID leased })

def releaseLease (ns nodeID : String) : Int64 × FakeLeaseManager :=
  match f.pools ns with
  | none => (0, f)
  | some p =>
    match p.nodeLeases.lookup nodeID with
    | none => (0, f)
    | some leased =>
      (leased, f.put ns { p with
        allocatedCredits := max 0 (p.allocatedCredits - leased)
        nodeLeases := p.nodeLeases.erase nodeID })

def getStatus (ns : String) : Option LeaseStatus :=
  (f.pools ns).map fun p =>
    { totalLimit := p.totalLimit, allocatedCredits := p.allocatedCredits, nodeLeases := p.nodeLeases }

end FakeLeaseManager
end QuotaManager
