import QuotaManager.Cluster
import QuotaManager.Logic.Checked
import QuotaManager.Logic.Holdings
import QuotaManager.Logic.Program

/-! The lease manager of `lease_k8s.go`. What an operation makes of a status is a
pure function of the quota it has read; around it stand the API calls, in their
order. -/

namespace QuotaManager

abbrev Action (α : Type) := Program Request Request.Reply α

abbrev perform (request : Request) : Action request.Reply := Program.call request

def leaseDurationSeconds : Int := 60

/-- A second of the clock. -/
def second : Int := 1000000

inductive LeaseError where
  | wrongNode (manager node : String)
  | getQuota (ns : String)
  | updateStatus (ns : String)
  | updateReclaimed
  deriving DecidableEq

def incrementVersion : Option Int64 → Int64
  | none => 1
  | some version => version + 1

def amounts (allocations : Allocations) : List Int64 := allocations.entries.map (·.2)

namespace K8sLeaseManager
variable (m : K8sLeaseManager)

/-- What a request without an amount asks for. -/
def batch (totalLimit : Int64) : Int64 :=
  let requested := totalLimit / 10
  let requested := if totalLimit ≤ 100 then totalLimit else requested
  let requested := max requested 10
  let requested := min requested m.defaultBatch
  min requested totalLimit

structure Grant where
  allocations : Allocations
  totalLimit : Int64
  allocated : Int64
  grant : Int64

/-- The computation that `requestFD` and `requestProc` share; nothing when the pool is exhausted. -/
def grant (allocations : Allocations) (limit : Option Int64) (nodeID : String) (requested : Int64) :
    Checked (Option Grant) := do
  let allocated ← Checked.sum (amounts allocations)
  let totalLimit := limit.getD 0
  let requested := if requested ≤ 0 then m.batch totalLimit else requested
  let available ← Checked.sub totalLimit allocated
  if available ≤ 0 then return none
  else
    let grant := min requested available
    let credits ← Checked.add ((allocations.lookup nodeID).getD 0) grant
    return some { allocations := allocations.insert nodeID credits, totalLimit, allocated, grant }

def requestedFD (quota : ObjectQuota) (nodeID : String) (requested : Int64) : Checked (Option ObjectQuotaStatus) := do
  match ← m.grant quota.status.fdAllocations quota.spec.fileDescriptors nodeID requested with
  | none => return none
  | some granted =>
    let rest ← Checked.sub granted.totalLimit granted.allocated
    let availableFD ← Checked.sub rest granted.grant
    let version := incrementVersion quota.status.version
    return some { quota.status with fdAllocations := granted.allocations, availableFD, version := some version }

/-- Unlike `requestedFD` this leaves the available amount alone. -/
def requestedProc (quota : ObjectQuota) (nodeID : String) (requested : Int64) : Checked (Option ObjectQuotaStatus) := do
  match ← m.grant quota.status.procAllocations quota.spec.processes nodeID requested with
  | none => return none
  | some granted =>
    let version := incrementVersion quota.status.version
    return some { quota.status with procAllocations := granted.allocations, version := some version }

end K8sLeaseManager

def releasedFD (quota : ObjectQuota) (nodeID : String) : Checked (Option ObjectQuotaStatus) := do
  match quota.status.fdAllocations.lookup nodeID with
  | none => return none
  | some _ =>
    let fdAllocations := quota.status.fdAllocations.erase nodeID
    let totalUsed ← Checked.sum (amounts fdAllocations)
    let availableFD ← Checked.sub (quota.spec.fileDescriptors.getD 0) totalUsed
    let version := incrementVersion quota.status.version
    return some { quota.status with fdAllocations, availableFD, version := some version }

def releasedProc (quota : ObjectQuota) (nodeID : String) : Checked (Option ObjectQuotaStatus) := do
  match quota.status.procAllocations.lookup nodeID with
  | none => return none
  | some _ =>
    let version := incrementVersion quota.status.version
    return some { quota.status with
      procAllocations := quota.status.procAllocations.erase nodeID, version := some version }

/-- The nodes with a lease renewed less than `leaseDurationSeconds` ago. -/
def activeNodes (leases : List Lease) (now : Int) (nodeID : String) : Bool :=
  leases.any fun lease =>
    lease.renewTime.any (fun renewTime => now - renewTime < leaseDurationSeconds * second) ∧
      lease.holderIdentity = some nodeID

/-- What is left when the nodes without an active lease, the caller apart, lose their
allocations; nothing when nobody loses any. -/
def reclaimed (quota : ObjectQuota) (caller : String) (active : String → Bool) : Checked (Option ObjectQuotaStatus) :=
  let keep (nodeID : String) : Bool := nodeID = caller ∨ active nodeID
  let lost (allocations : Allocations) : Bool := allocations.entries.any fun entry => ! keep entry.1
  if lost quota.status.fdAllocations ∨ lost quota.status.procAllocations then do
    let fdAllocations := Holdings.retain keep quota.status.fdAllocations
    let procAllocations := Holdings.retain keep quota.status.procAllocations
    let totalFD ← Checked.sum (amounts fdAllocations)
    let availableFD ← Checked.sub (quota.spec.fileDescriptors.getD 0) totalFD
    let version := quota.status.version.getD 0 + 1
    return some { fdAllocations, procAllocations, availableFD, version := some version }
  else return none

namespace K8sLeaseManager
variable (m : K8sLeaseManager)

def ensureLease (ns : String) : Action Unit := do
  let now ← perform .clock
  match ← perform (.getLease ns (m.leaseName ns)) with
  | none =>
    let _ ← perform (.createLease {
      ns, name := m.leaseName ns, resourceVersion := 0, holderIdentity := some m.nodeID, renewTime := some now })
  | some existing =>
    let _ ← perform (.updateLease { existing with renewTime := some now })

def deleteLease (ns : String) : Action Unit := do
  let _ ← perform (.deleteLease ns (m.leaseName ns))

def requestFD (quota : ObjectQuota) (ns nodeID : String) (requested : Int64) : Action (Except LeaseError Int64) :=
  match (quota.status.fdAllocations.lookup nodeID).filter (0 < ·) with
  | some existing => do
    m.ensureLease ns
    return .ok existing
  | none =>
    match (m.requestedFD quota nodeID requested).value with
    | none => do
      m.ensureLease ns
      return .ok ((quota.status.fdAllocations.lookup nodeID).getD 0)
    | some status => do
      match ← perform (.updateStatus .requestFD { quota with status }) with
      | false => return .error (.updateStatus ns)
      | true =>
        m.ensureLease ns
        return .ok ((status.fdAllocations.lookup nodeID).getD 0)

/-- No path of this one writes the heartbeat. -/
def requestProc (quota : ObjectQuota) (ns nodeID : String) (requested : Int64) : Action (Except LeaseError Int64) :=
  match (quota.status.procAllocations.lookup nodeID).filter (0 < ·) with
  | some existing => return .ok existing
  | none =>
    match (m.requestedProc quota nodeID requested).value with
    | none => return .ok ((quota.status.procAllocations.lookup nodeID).getD 0)
    | some status => do
      match ← perform (.updateStatus .requestProc { quota with status }) with
      | false => return .error (.updateStatus ns)
      | true => return .ok ((status.procAllocations.lookup nodeID).getD 0)

def requestLease (ns nodeID : String) (requested : Int64) : Action (Except LeaseError Int64) :=
  let (baseNS, isProc) := isProcSuffix ns
  if nodeID ≠ m.nodeID then return .error (.wrongNode m.nodeID nodeID)
  else do
    match ← perform (.getQuota baseNS baseNS) with
    | none => return .error (.getQuota baseNS)
    | some quota =>
      if isProc then m.requestProc quota baseNS nodeID requested
      else m.requestFD quota baseNS nodeID requested

def releaseFD (quota : ObjectQuota) (ns nodeID : String) : Action Int64 :=
  match (releasedFD quota nodeID).value with
  | none => return 0
  | some status => do
    match ← perform (.updateStatus .releaseFD { quota with status }) with
    | false => return 0
    | true =>
      m.deleteLease ns
      return (quota.status.fdAllocations.lookup nodeID).getD 0

def releaseProc (quota : ObjectQuota) (nodeID : String) : Action Int64 :=
  match (releasedProc quota nodeID).value with
  | none => return 0
  | some status => do
    match ← perform (.updateStatus .releaseProc { quota with status }) with
    | false => return 0
    | true => return (quota.status.procAllocations.lookup nodeID).getD 0

def releaseLease (ns nodeID : String) : Action Int64 := do
  let (baseNS, isProc) := isProcSuffix ns
  match ← perform (.getQuota baseNS baseNS) with
  | none => return 0
  | some quota => if isProc then releaseProc quota nodeID else m.releaseFD quota baseNS nodeID

def reclaimExpiredLeases (ns : String) : Action (Except LeaseError Unit) := do
  match ← perform (.getQuota ns ns) with
  | none => return .ok ()
  | some quota =>
    match ← perform (.listLeases ns) with
    | none => return .ok ()
    | some leases =>
      let now ← perform .clock
      match (reclaimed quota m.nodeID (activeNodes leases now)).value with
      | none => return .ok ()
      | some status =>
        match ← perform (.updateStatus .reclaim { quota with status }) with
        | false => return .error .updateReclaimed
        | true => return .ok ()

/-- The loop of one renewal tick over the listed quotas. -/
def renewAll : List ObjectQuota → Action Unit
  | [] => return
  | quota :: rest => do
    m.ensureLease quota.ns
    let _ ← m.reclaimExpiredLeases quota.ns
    renewAll rest

/-- One tick of `StartLeaseRenewal`. -/
def renewalTick : Action Unit := do
  match ← perform .listQuotas with
  | none => return
  | some items => m.renewAll items

end K8sLeaseManager
end QuotaManager
