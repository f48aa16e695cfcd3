import QuotaManager.Types

/-! The shared world: the API server with its clock, and on every node the loaded
object and the bookkeeping of the syncer. Each request of a program is one atomic
step here. A fault says which of its primitive operations fail. -/

namespace QuotaManager
open Enforcer

/-- A loaded object, the resolver's answers of the moment, and the syncer's maps. -/
structure Node where
  bpf : Bpf
  resolve : String → Option (List CgroupInfo)
  nsCgroups : String → Option (Finset UInt64)
  cgroupPaths : BpfMap String
  nsNameByKey : BpfMap String

/-- Whether one operation fails in a section that goes on after each failure. The bits of
the fault's number name those that fail. -/
def fails (fault : Option Nat) (operation : Nat) : Bool := fault.any (·.testBit operation)

@[simp] theorem fails_none (operation : Nat) : fails none operation = false := rfl

namespace Node

/-- A node on which nothing has been synced. -/
def empty : Node := ⟨.empty, fun _ => none, fun _ => none, .empty, .empty⟩

def edit (node : Node) (resource : Resource) (change : ResourceMaps → ResourceMaps) : Node :=
  { node with bpf := node.bpf.withMaps resource (change (node.bpf.maps resource)) }

def updateCgroupMapping (node : Node) (resource : Resource) (cgroupID nsKey : UInt64) : Node :=
  node.edit resource fun maps => maps.updateCgroupMapping cgroupID nsKey

def recordPath (node : Node) (cInfo : CgroupInfo) : Node :=
  { node with cgroupPaths := node.cgroupPaths.update cInfo.cgroupID cInfo.cgroupPath }

def track (node : Node) (ns : String) (known : Finset UInt64) : Node :=
  { node with nsCgroups := Function.update node.nsCgroups ns (some known) }

/-- The cgroups of all pods that have not ended; an unresolved pod is skipped. -/
def resolved (node : Node) (pods : List Pod) : List CgroupInfo :=
  (pods.filter fun pod => pod.phase ≠ .succeeded ∧ pod.phase ≠ .failed).flatMap fun pod =>
    (node.resolve pod.uid).getD []

/-- The loop of a sync's locked section. A failed map write ends it. -/
def mapResolved (resource : Resource) (nsKey : UInt64) :
    List CgroupInfo → Option Nat → Finset UInt64 → Node → Except UInt64 (Finset UInt64) × Node
  | [], _, known, node => (.ok known, node)
  | cInfo :: rest, fault, known, node =>
    if fault = some 0 then (.error cInfo.cgroupID, node)
    else
      let node := node.updateCgroupMapping resource cInfo.cgroupID nsKey
      mapResolved resource nsKey rest (fault.map (· - 1)) (insert cInfo.cgroupID known) (node.recordPath cInfo)

/-- The locked section of `SyncNamespace` and `SyncProcessNamespace`. -/
def mapPods (node : Node) (resource : Resource) (ns : String) (pods : List Pod) (fault : Option Nat) :
    Except UInt64 Unit × Node :=
  let nsKey := namespaceKey ns
  let named := { node with nsNameByKey := node.nsNameByKey.update nsKey ns }
  match mapResolved resource nsKey (node.resolved pods) fault ∅ named with
  | (.error cgroupID, node) => (.error cgroupID, node)
  | (.ok known, node) => (.ok (), node.track ns known)

/-- The locked section of `scanAndMapCgroups`. A failed map write skips the cgroup; the
writes of each cgroup in the list are two operations. `false` is the panic of an
assignment into a missing `nsCgroups[ns]`. -/
def mapScanned (ns : String) : List CgroupInfo → (Nat → Bool) → Finset UInt64 → Node → Bool × Node
  | [], _, _, node => (true, node)
  | cInfo :: rest, fails, existing, node =>
    let later (operation : Nat) := fails (operation + 2)
    if cInfo.cgroupID ∈ existing then mapScanned ns rest later existing node
    else if fails 0 then mapScanned ns rest later existing node
    else
      let node := node.updateCgroupMapping .fd cInfo.cgroupID (namespaceKey ns)
      if fails 1 then mapScanned ns rest later existing node
      else
        let node := node.updateCgroupMapping .proc cInfo.cgroupID (namespaceKey ns)
        match node.nsCgroups ns with
        | none => (false, node)
        | some known =>
          mapScanned ns rest later (insert cInfo.cgroupID existing)
            ((node.track ns (insert cInfo.cgroupID known)).recordPath cInfo)

end Node

/-- Who updates a quota's status. -/
inductive Writer where
  | requestFD
  | requestProc
  | releaseFD
  | releaseProc
  | reclaim
  deriving DecidableEq

/-- `writers` and `active` are for statements only: who has updated the status of a
quota, newest first, and when a node last committed a request for a namespace or
worked on its heartbeat there. -/
structure Cluster where
  revision : Nat
  now : Int
  quotas : List ObjectQuota
  leases : List Lease
  pods : String → List Pod
  nodes : String → Node
  writers : String → String → List Writer
  active : String → String → Option Int

inductive Request where
  | getQuota (ns name : String)
  | updateStatus (writer : Writer) (quota : ObjectQuota)
  | listQuotas
  | getLease (ns name : String)
  | createLease (lease : Lease)
  | updateLease (lease : Lease)
  | deleteLease (ns name : String)
  | listLeases (ns : String)
  | clock
  | listPods (ns : String)
  | updateNsLimit (resource : Resource) (nsKey : UInt64) (limit : Int64)
  | lookupNsCounter (resource : Resource) (nsKey : UInt64)
  | updateNsCounter (resource : Resource) (nsKey : UInt64) (lease : CpuLease)
  | mapPods (resource : Resource) (ns : String) (pods : List Pod)
  | tracked (ns : String)
  | mapScanned (ns : String) (existing : Finset UInt64) (cInfos : List CgroupInfo)

/-- What a request answers. Errors of a read are `none`, those of a write `false`. -/
abbrev Request.Reply : Request → Type
  | .getQuota _ _ => Option ObjectQuota
  | .updateStatus _ _ => Bool
  | .listQuotas => Option (List ObjectQuota)
  | .getLease _ _ => Option Lease
  | .createLease _ | .updateLease _ | .deleteLease _ _ => Bool
  | .listLeases _ => Option (List Lease)
  | .clock => Int
  | .listPods _ => Option (List Pod)
  | .updateNsLimit _ _ _ | .updateNsCounter _ _ _ => Bool
  | .lookupNsCounter _ _ => Option CpuLease
  | .mapPods _ _ _ => Except UInt64 Unit
  | .tracked _ => Option (Finset UInt64)
  | .mapScanned _ _ _ => Bool

namespace Cluster

/-- A cluster with some quotas on which nothing has happened yet. -/
def empty (quotas : List ObjectQuota) : Cluster :=
  ⟨0, 0, quotas, [], fun _ => [], fun _ => .empty, fun _ _ => [], fun _ _ => none⟩

def quota (world : Cluster) (ns name : String) : Option ObjectQuota :=
  world.quotas.find? fun quota => quota.ns = ns ∧ quota.name = name

def lease (world : Cluster) (ns name : String) : Option Lease :=
  world.leases.find? fun lease => lease.ns = ns ∧ lease.name = name

def commitStatus (world : Cluster) (writer : Writer) (quota : ObjectQuota) : Cluster :=
  { world with
    revision := world.revision + 1
    quotas := world.quotas.map fun stored =>
      if stored.ns = quota.ns ∧ stored.name = quota.name then
        { stored with status := quota.status, resourceVersion := world.revision + 1 }
      else stored
    writers := fun ns name =>
      if ns = quota.ns ∧ name = quota.name then writer :: world.writers ns name else world.writers ns name }

/-- A new or a changed lease gets a resource version of its own. -/
def createLease (world : Cluster) (lease : Lease) : Cluster :=
  { world with
    revision := world.revision + 1
    leases := world.leases ++ [{ lease with resourceVersion := world.revision + 1 }] }

def updateLease (world : Cluster) (lease : Lease) : Cluster :=
  { world with
    revision := world.revision + 1
    leases := world.leases.map fun stored =>
      if stored.ns = lease.ns ∧ stored.name = lease.name then { lease with resourceVersion := world.revision + 1 }
      else stored }

def deleteLease (world : Cluster) (ns name : String) : Cluster :=
  { world with leases := world.leases.filter fun lease => ¬ (lease.ns = ns ∧ lease.name = name) }

def noteActive (world : Cluster) (node ns : String) : Cluster :=
  { world with active := fun other key => if other = node ∧ key = ns then some world.now else world.active other key }

def editNode (world : Cluster) (name : String) (node : Node) : Cluster :=
  { world with nodes := Function.update world.nodes name node }

/-- The API server stores an update only if the resource version that was read is
still current. Requests for maps and locked sections go to the owner's own node. -/
def serve (world : Cluster) (owner : Syncer) : (request : Request) → Option Nat → request.Reply × Cluster
  | .getQuota ns name, fault => (if fault.isSome then none else world.quota ns name, world)
  | .updateStatus writer quota, fault =>
    match world.quota quota.ns quota.name with
    | none => (false, world)
    | some stored =>
      if fault = none ∧ stored.resourceVersion = quota.resourceVersion then
        let world := world.commitStatus writer quota
        (true, if writer = .requestFD ∨ writer = .requestProc then world.noteActive owner.identity quota.ns else world)
      else (false, world)
  | .listQuotas, fault => (if fault.isSome then none else some world.quotas, world)
  | .getLease ns name, fault =>
    (if fault.isSome then none else world.lease ns name, world.noteActive owner.identity ns)
  | .createLease lease, fault =>
    let world := world.noteActive owner.identity lease.ns
    if fault = none ∧ world.lease lease.ns lease.name = none then (true, world.createLease lease) else (false, world)
  | .updateLease lease, fault =>
    let world := world.noteActive owner.identity lease.ns
    match world.lease lease.ns lease.name with
    | none => (false, world)
    | some stored =>
      if fault = none ∧ stored.resourceVersion = lease.resourceVersion then (true, world.updateLease lease)
      else (false, world)
  | .deleteLease ns name, fault => if fault.isSome then (false, world) else (true, world.deleteLease ns name)
  | .listLeases ns, fault =>
    (if fault.isSome then none else some (world.leases.filter fun lease => lease.ns = ns), world)
  | .clock, _ => (world.now, world)
  | .listPods ns, fault => (if fault.isSome then none else some (world.pods ns), world)
  | .updateNsLimit resource nsKey limit, fault =>
    if fault.isSome then (false, world) else
    (true, world.editNode owner.nodeID
      ((world.nodes owner.nodeID).edit resource fun maps => maps.updateNsLimit nsKey limit))
  | .lookupNsCounter resource nsKey, fault =>
    (if fault.isSome then none else ((world.nodes owner.nodeID).bpf.maps resource).nsCounter nsKey, world)
  | .updateNsCounter resource nsKey lease, fault =>
    if fault.isSome then (false, world) else
    (true, world.editNode owner.nodeID
      ((world.nodes owner.nodeID).edit resource fun maps => maps.updateNsCounter nsKey lease))
  | .mapPods resource ns pods, fault =>
    let (answer, node) := (world.nodes owner.nodeID).mapPods resource ns pods fault
    (answer, world.editNode owner.nodeID node)
  | .tracked ns, _ => ((world.nodes owner.nodeID).nsCgroups ns, world)
  | .mapScanned ns existing cInfos, fault =>
    let (answer, node) := (world.nodes owner.nodeID).mapScanned ns cInfos (fails fault) existing
    (answer, world.editNode owner.nodeID node)

end Cluster

/-- What happens without a request of a program. -/
inductive Change where
  | tick (elapsed : Nat)
  | kernel (node : String) (event : KernelEvent)
  | pods (ns : String) (pods : List Pod)
  | resolver (node uid : String) (answer : Option (List CgroupInfo))

def Cluster.drift (world : Cluster) : Change → Cluster
  | .tick elapsed => { world with now := world.now + elapsed }
  | .kernel name event =>
    let node := world.nodes name
    world.editNode name { node with bpf := node.bpf.after event }
  | .pods ns pods => { world with pods := Function.update world.pods ns pods }
  | .resolver name uid answer =>
    let node := world.nodes name
    world.editNode name { node with resolve := Function.update node.resolve uid answer }

end QuotaManager
