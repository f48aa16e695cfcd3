import QuotaManager.Syncer

/-! The callers of the syncer: the reconcilers of `controller.go`, what they start in
`syncer.go` beyond a single sync, and the background scanner. Their requests extend
those of a sync by the steps of a removal and of a scan. -/

namespace QuotaManager
open Enforcer

/-- The deletions of a loop over a set of cgroups, in whatever order; each may fail. -/
def Enforcer.ResourceMaps.deleteCgroupMappings (maps : ResourceMaps) (known : Finset UInt64)
    (counterFails mappingFails : UInt64 → Bool) : ResourceMaps :=
  { maps with
    cgroup := fun cgroupID => if cgroupID ∈ known ∧ ¬ mappingFails cgroupID then none else maps.cgroup cgroupID
    cgroupCounter := fun cgroupID =>
      if cgroupID ∈ known ∧ ¬ counterFails cgroupID then none else maps.cgroupCounter cgroupID }

/-- The operations of the loop of `RemoveNamespace`: for each cgroup the deletions of its
counter and its mapping, first of descriptors and then of processes. -/
def counterDeletion (resource : Resource) (cgroupID : UInt64) : Nat :=
  match resource with
  | .fd => 4 * cgroupID.toNat
  | .proc => 4 * cgroupID.toNat + 2

def mappingDeletion (resource : Resource) (cgroupID : UInt64) : Nat := counterDeletion resource cgroupID + 1

namespace Node

def deleteCgroupMappings (node : Node) (resource : Resource) (known : Finset UInt64) (fails : Nat → Bool) : Node :=
  node.edit resource fun maps => maps.deleteCgroupMappings known
    (fun cgroupID => fails (counterDeletion resource cgroupID)) fun cgroupID => fails (mappingDeletion resource cgroupID)

/-- The locked section of `RemoveNamespace`. A failed deletion is only logged. -/
def removeCgroups (node : Node) (ns : String) (fails : Nat → Bool) : Node :=
  let node :=
    match node.nsCgroups ns with
    | none => node
    | some cgroups =>
      let node := node.deleteCgroupMappings .fd cgroups fails
      let node := node.deleteCgroupMappings .proc cgroups fails
      { node with
        cgroupPaths := fun cgroupID => if cgroupID ∈ cgroups then none else node.cgroupPaths cgroupID
        nsCgroups := Function.update node.nsCgroups ns none }
  { node with nsNameByKey := node.nsNameByKey.delete (namespaceKey ns) }

/-- What a scan takes to be mapped after a locked section; the section itself is `mapScanned`. -/
def scanned : List CgroupInfo → (Nat → Bool) → Finset UInt64 → Finset UInt64
  | [], _, existing => existing
  | cInfo :: rest, fails, existing =>
    let later (operation : Nat) := fails (operation + 2)
    if cInfo.cgroupID ∈ existing ∨ fails 0 ∨ fails 1 then scanned rest later existing
    else scanned rest later (insert cInfo.cgroupID existing)

end Node

inductive GetError where
  | notFound
  | unavailable
  deriving DecidableEq

inductive ControllerRequest where
  | sync (request : Request)
  | getQuota (ns name : String)
  | listQuotas (ns : String)
  | deleteNsLimit (resource : Resource) (nsKey : UInt64)
  | deleteNsCounter (resource : Resource) (nsKey : UInt64)
  | removeCgroups (ns : String)
  | snapshot
  | mapScanned (ns : String) (existing : Finset UInt64) (cInfos : List CgroupInfo)

/-- A failed deletion is only logged. No answer to `mapScanned` is the panic of an
assignment into a missing map. -/
abbrev ControllerRequest.Reply : ControllerRequest → Type
  | .sync request => request.Reply
  | .getQuota _ _ => Except GetError ObjectQuota
  | .listQuotas _ => Option (List ObjectQuota)
  | .deleteNsLimit _ _ | .deleteNsCounter _ _ | .removeCgroups _ => Unit
  | .snapshot => String → Option (Finset UInt64)
  | .mapScanned _ _ _ => Option (Finset UInt64)

def Cluster.control (world : Cluster) (owner : Syncer) :
    (request : ControllerRequest) → Option Nat → request.Reply × Cluster
  | .sync request, fault => world.serve owner request fault
  | .getQuota ns name, fault =>
    (if fault.isSome then .error .unavailable else
      match world.quota ns name with
      | none => .error .notFound
      | some quota => .ok quota, world)
  | .listQuotas ns, fault =>
    (if fault.isSome then none else some (world.quotas.filter fun quota => quota.ns = ns), world)
  | .deleteNsLimit resource nsKey, fault =>
    if fault.isSome then ((), world) else
    ((), world.editNode owner.nodeID
      ((world.nodes owner.nodeID).edit resource fun maps => maps.deleteNsLimit nsKey))
  | .deleteNsCounter resource nsKey, fault =>
    if fault.isSome then ((), world) else
    ((), world.editNode owner.nodeID
      ((world.nodes owner.nodeID).edit resource fun maps => maps.deleteNsCounter nsKey))
  | .removeCgroups ns, fault =>
    ((), world.editNode owner.nodeID ((world.nodes owner.nodeID).removeCgroups ns (fails fault)))
  | .snapshot, _ => ((world.nodes owner.nodeID).nsCgroups, world)
  | .mapScanned ns existing cInfos, fault =>
    let (mapped, node) := (world.nodes owner.nodeID).mapScanned ns cInfos (fails fault) existing
    (if mapped then some (Node.scanned cInfos (fails fault) existing) else none, world.editNode owner.nodeID node)

abbrev Flow (α : Type) := Program ControllerRequest ControllerRequest.Reply α

abbrev issue (request : ControllerRequest) : Flow request.Reply := Program.call request

/-- An operation of the lease manager or a sync, as part of a larger flow. -/
def Action.lift {α : Type} (action : Action α) : Flow α :=
  Program.translate .sync (fun _ reply => reply) action

/-- A pod directory as the scan reads it: its own cgroup, the pod that its path names,
and the cgroups below it. -/
structure PodDirectory where
  info : Option CgroupInfo
  uid : Option String
  children : List CgroupInfo

namespace Syncer
variable (s : Syncer)

def releaseLeases (ns : String) : Flow Unit :=
  match s.leaser with
  | none => return
  | some leaser => do
    let _ ← Action.lift (leaser.releaseLease ns s.nodeID)
    let _ ← Action.lift (leaser.releaseLease (ns ++ "-proc") s.nodeID)

def removeNamespace (ns : String) : Flow Unit := do
  let nsKey := namespaceKey ns
  s.releaseLeases ns
  issue (.deleteNsLimit .fd nsKey)
  issue (.deleteNsCounter .fd nsKey)
  issue (.deleteNsLimit .proc nsKey)
  issue (.deleteNsCounter .proc nsKey)
  issue (.removeCgroups ns)

/-- A half of `SyncFromQuota`: nothing is done for a limit that is not set. -/
def whenSet (limit : Option Int64) (sync : Int64 → Action (Except SyncError Unit)) : Flow (Except SyncError Unit) :=
  match limit with
  | none => return .ok ()
  | some limit => Action.lift (sync limit)

def syncFromQuota (quota : ObjectQuota) : Flow (Except SyncError Unit) := do
  let batchSize := some (quota.spec.leaseBatchSize.getD 0)
  match ← whenSet quota.spec.fileDescriptors fun fdLimit => s.syncNamespace quota.ns fdLimit batchSize with
  | .error err => return .error err
  | .ok () =>
    match ← whenSet quota.spec.processes fun procLimit => s.syncProcessNamespace quota.ns procLimit batchSize with
    | .error err => return .error err
    | .ok () =>
      if quota.spec.fileDescriptors = none ∧ quota.spec.processes = none then do
        s.removeNamespace quota.ns
        return .ok ()
      else return .ok ()

/-- The loop of `SyncNamespaceFromQuota`; errors are dropped. -/
def syncEach : List ObjectQuota → Flow Unit
  | [] => return
  | quota :: rest => do
    let _ ← s.syncFromQuota quota
    syncEach rest

def syncNamespaceFromQuota (ns : String) : Flow Unit := do
  match ← issue (.listQuotas ns) with
  | none => return
  | some items => s.syncEach items

/-- `ObjectQuotaReconciler.Reconcile`. Only an object that does not exist is cleaned up. -/
def reconcile (ns name : String) : Flow Unit := do
  match ← issue (.getQuota ns name) with
  | .error .notFound => s.removeNamespace ns
  | .error .unavailable => return
  | .ok quota =>
    let _ ← s.syncFromQuota quota

/-- `ObjectQuotaReconciler.Reconcile` with the error that it returns. A failed `Get`
returns none, and neither do the deletions of a removal. -/
def reconcileReturning (ns name : String) : Flow (Except SyncError Unit) := do
  match ← issue (.getQuota ns name) with
  | .error .notFound => do
    s.removeNamespace ns
    return .ok ()
  | .error .unavailable => return .ok ()
  | .ok quota => s.syncFromQuota quota

/-- One pod directory of a scan for one namespace. -/
def scanDirectory (ns : String) (existing : Finset UInt64) (directory : PodDirectory) :
    Flow (Option (Finset UInt64)) :=
  match directory.info with
  | none => return some existing
  | some podCgInfo =>
    if podCgInfo.cgroupID ∈ existing then return some existing
    else
      match directory.uid with
      | none => return some existing
      | some uid => do
        let podUID := String.ofList (uid.toList.map fun char => if char = '_' then '-' else char)
        match ← issue (.sync (.listPods ns)) with
        | none => return some existing
        | some pods =>
          if pods.any (·.uid = podUID) then issue (.mapScanned ns existing (podCgInfo :: directory.children))
          else return some existing

/-- The pod directories of one namespace, until one panics. -/
def scanDirectories (ns : String) : List PodDirectory → Finset UInt64 → Flow Bool
  | [], _ => return true
  | directory :: rest, existing => do
    match ← scanDirectory ns existing directory with
    | none => return false
    | some existing => scanDirectories ns rest existing

def scanNamespaces (tracked : String → Option (Finset UInt64)) : List (String × List PodDirectory) → Flow Unit
  | [] => return
  | (ns, directories) :: rest =>
    match tracked ns with
    | none => scanNamespaces tracked rest
    | some existing => do
      match ← scanDirectories ns directories existing with
      | false => return
      | true => scanNamespaces tracked rest

/-- A whole scan. The namespaces come in the order of the loop over the snapshot, each
with the pod directories as they are read at its turn. -/
def scanCgroups (namespaces : List (String × List PodDirectory)) : Flow Unit := do
  let tracked ← issue .snapshot
  scanNamespaces tracked namespaces

end Syncer

/-- What the controllers and the ticker start on a node. -/
inductive Job where
  | syncNamespace (ns : String) (limit : Int64) (batchSize : Option Int64)
  | syncProcessNamespace (ns : String) (limit : Int64) (batchSize : Option Int64)
  | syncFromQuota (quota : ObjectQuota)
  | syncNamespaceFromQuota (ns : String)
  | reconcile (ns name : String)
  | removeNamespace (ns : String)
  | scanAndMapCgroups (namespaces : List (String × List PodDirectory))

def Job.body (s : Syncer) : Job → Flow Unit
  | .syncNamespace ns limit batchSize => do let _ ← Action.lift (s.syncNamespace ns limit batchSize)
  | .syncProcessNamespace ns limit batchSize => do let _ ← Action.lift (s.syncProcessNamespace ns limit batchSize)
  | .syncFromQuota quota => do let _ ← s.syncFromQuota quota
  | .syncNamespaceFromQuota ns => s.syncNamespaceFromQuota ns
  | .reconcile ns name => s.reconcile ns name
  | .removeNamespace ns => s.removeNamespace ns
  | .scanAndMapCgroups namespaces => Syncer.scanCgroups namespaces

/-- The controllers and the scanner of any number of nodes at work on one cluster. -/
def controllers : Machine Cluster Syncer Job Change (Option Nat) ControllerRequest ControllerRequest.Reply where
  body := Job.body
  serve := Cluster.control
  drift := Cluster.drift

end QuotaManager
