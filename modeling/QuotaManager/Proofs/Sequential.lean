import QuotaManager.Controller
import QuotaManager.Proofs.Mappings

/-! What a call does when it runs alone. A sync is the request for credits followed by
one edit of the own node; a removal is two releases followed by one edit. -/

namespace QuotaManager
open Enforcer

def ObjectQuotaSpec.limit (spec : ObjectQuotaSpec) : Resource → Option Int64
  | .fd => spec.fileDescriptors
  | .proc => spec.processes

def ObjectQuotaStatus.allocations (status : ObjectQuotaStatus) : Resource → Allocations
  | .fd => status.fdAllocations
  | .proc => status.procAllocations

/-- Runs an operation alone on a node; the outcome of a request depends on the request. -/
def Action.exec {α : Type} (s : Syncer) (outcome : Request → Option Nat) (action : Action α) (world : Cluster) :
    α × Cluster :=
  Program.exec (fun world request => world.serve s request) outcome action world

def Flow.exec {α : Type} (s : Syncer) (outcome : ControllerRequest → Option Nat) (flow : Flow α) (world : Cluster) :
    α × Cluster :=
  Program.exec (fun world request => world.control s request) outcome flow world

/-- Every request succeeds. -/
def smooth {ρ : Type} (_ : ρ) : Option Nat := none

section exec
variable {α β : Type} (s : Syncer)

theorem Action.exec_return (outcome : Request → Option Nat) (value : α) (world : Cluster) :
    Action.exec s outcome (pure value : Action α) world = (value, world) := rfl

theorem Action.exec_perform (outcome : Request → Option Nat) (request : Request) (world : Cluster) :
    Action.exec s outcome (perform request) world = world.serve s request (outcome request) := rfl

theorem Action.exec_bind (outcome : Request → Option Nat) (action : Action α) (next : α → Action β) (world : Cluster) :
    Action.exec s outcome (action >>= next) world =
      Action.exec s outcome (next (Action.exec s outcome action world).1) (Action.exec s outcome action world).2 :=
  Program.exec_bind _ _ action next world

theorem Flow.exec_return (outcome : ControllerRequest → Option Nat) (value : α) (world : Cluster) :
    Flow.exec s outcome (pure value : Flow α) world = (value, world) := rfl

theorem Flow.exec_issue (outcome : ControllerRequest → Option Nat) (request : ControllerRequest) (world : Cluster) :
    Flow.exec s outcome (issue request) world = world.control s request (outcome request) := rfl

theorem Flow.exec_bind (outcome : ControllerRequest → Option Nat) (flow : Flow α) (next : α → Flow β) (world : Cluster) :
    Flow.exec s outcome (flow >>= next) world =
      Flow.exec s outcome (next (Flow.exec s outcome flow world).1) (Flow.exec s outcome flow world).2 :=
  Program.exec_bind _ _ flow next world

end exec

theorem Flow.exec_lift {α : Type} (s : Syncer) (outcome : ControllerRequest → Option Nat) (action : Action α)
    (world : Cluster) :
    Flow.exec s outcome action.lift world = Action.exec s (fun request => outcome (.sync request)) action world := by
  unfold Flow.exec Action.exec Action.lift
  apply Program.exec_translate
  intro world request
  exact ⟨rfl, rfl⟩

namespace Cluster

@[simp] theorem editNode_self (world : Cluster) (name : String) (node : Node) :
    (world.editNode name node).nodes name = node := Function.update_self ..

theorem editNode_other (world : Cluster) {name other : String} (node : Node) (different : other ≠ name) :
    (world.editNode name node).nodes other = world.nodes other := Function.update_of_ne different ..

@[simp] theorem editNode_editNode (world : Cluster) (name : String) (first second : Node) :
    (world.editNode name first).editNode name second = world.editNode name second := by
  simp only [editNode, Function.update_idem]

end Cluster

/-- Nothing but credits and heartbeats was touched in between. -/
structure OffNode (before after : Cluster) : Prop where
  nodes : after.nodes = before.nodes
  pods : after.pods = before.pods

theorem OffNode.refl (world : Cluster) : OffNode world world := ⟨rfl, rfl⟩

theorem OffNode.trans {first second third : Cluster} (one : OffNode first second) (two : OffNode second third) :
    OffNode first third :=
  ⟨two.nodes.trans one.nodes, two.pods.trans one.pods⟩

/-- The lease manager never asks for an edit of a node. -/
def Request.OffNode (request : Request) : Prop := request.editsNode = false

theorem offNode_exec {α : Type} {s : Syncer} {outcome : Request → Option Nat} {action : Action α}
    (asks : action.Asks Request.OffNode) (world : Cluster) : OffNode world (action.exec s outcome world).2 := by
  apply asks.exec_kept (QuotaManager.OffNode world) _ (.refl world)
  intro later request api kept
  obtain ⟨nodes, pods⟩ := serve_api later s api (outcome request)
  exact kept.trans ⟨nodes, pods⟩

namespace K8sLeaseManager
variable (m : K8sLeaseManager)

theorem ensureLease_asks (ns : String) : (m.ensureLease ns).Asks Request.OffNode := by
  refine ⟨rfl, fun _ => ⟨rfl, fun existing => ?_⟩⟩
  cases existing with
  | none => exact ⟨rfl, fun _ => trivial⟩
  | some lease => exact ⟨rfl, fun _ => trivial⟩

theorem requestFD_asks (quota : ObjectQuota) (ns nodeID : String) (requested : Int64) :
    (m.requestFD quota ns nodeID requested).Asks Request.OffNode := by
  unfold requestFD
  split
  · exact (m.ensureLease_asks ns).bind fun _ => trivial
  · split
    · exact (m.ensureLease_asks ns).bind fun _ => trivial
    · refine ⟨rfl, fun committed => ?_⟩
      cases committed with
      | false => trivial
      | true => exact (m.ensureLease_asks ns).bind fun _ => trivial

theorem requestProc_asks (quota : ObjectQuota) (ns nodeID : String) (requested : Int64) :
    (m.requestProc quota ns nodeID requested).Asks Request.OffNode := by
  unfold requestProc
  split
  · trivial
  · split
    · trivial
    · refine ⟨rfl, fun committed => ?_⟩
      cases committed <;> trivial

theorem requestLease_asks (ns nodeID : String) (requested : Int64) :
    (m.requestLease ns nodeID requested).Asks Request.OffNode := by
  unfold requestLease
  simp only
  split
  · trivial
  · refine ⟨rfl, fun found => ?_⟩
    cases found with
    | none => trivial
    | some quota =>
      simp only [Program.done_bind]
      split
      · exact m.requestProc_asks _ _ _ _
      · exact m.requestFD_asks _ _ _ _

theorem releaseLease_asks (ns nodeID : String) : (m.releaseLease ns nodeID).Asks Request.OffNode := by
  unfold releaseLease
  refine ⟨rfl, fun found => ?_⟩
  cases found with
  | none => trivial
  | some quota =>
    simp only [Program.done_bind]
    split
    · unfold releaseProc
      split
      · trivial
      · refine ⟨rfl, fun committed => ?_⟩
        cases committed <;> trivial
    · unfold releaseFD
      split
      · trivial
      · refine ⟨rfl, fun committed => ?_⟩
        cases committed with
        | false => trivial
        | true => exact ⟨rfl, fun _ => trivial⟩

end K8sLeaseManager

namespace Syncer
variable (s : Syncer)

theorem effectiveLimit_asks (resource : Resource) (ns : String) (limit : Int64) (batchSize : Option Int64) :
    (s.effectiveLimit resource ns limit batchSize).Asks Request.OffNode := by
  unfold effectiveLimit
  cases s.leaser with
  | none => trivial
  | some leaser =>
    apply (leaser.requestLease_asks _ _ _).bind
    intro granted
    cases granted <;> trivial

end Syncer

namespace Node

theorem edit_edit (node : Node) (resource : Resource) (first second : ResourceMaps → ResourceMaps) :
    (node.edit resource first).edit resource second = node.edit resource fun maps => second (first maps) := by
  cases resource <;> rfl

/-- The limit and the counter of a namespace, as a sync writes them. -/
def limited (node : Node) (resource : Resource) (ns : String) (limit : Int64) : Node :=
  node.edit resource fun maps => (maps.updateNsLimit (namespaceKey ns) limit).resetNsCounter (namespaceKey ns) limit

/-- All that a sync does to its node. -/
def synced (node : Node) (resource : Resource) (ns : String) (limit : Int64) (pods : List Pod) : Node :=
  ((node.limited resource ns limit).mapPods resource ns pods none).2

/-- Limits and counters of a namespace, as a removal leaves them. -/
def unlimited (node : Node) (ns : String) : Node :=
  (node.edit .fd fun maps => (maps.deleteNsLimit (namespaceKey ns)).deleteNsCounter (namespaceKey ns)).edit .proc
    fun maps => (maps.deleteNsLimit (namespaceKey ns)).deleteNsCounter (namespaceKey ns)

/-- All that a removal does to its node. -/
def removed (node : Node) (ns : String) : Node := (node.unlimited ns).removeCgroups ns fun _ => false

section removal
variable (node : Node) (resource : Resource) (ns : String) (fails : Nat → Bool)

theorem deleteCgroupMappings_maps (known : Finset UInt64) (other : Resource) :
    (node.deleteCgroupMappings resource known fails).bpf.maps other =
      if other = resource then
        (node.bpf.maps resource).deleteCgroupMappings known (fun cgroupID => fails (counterDeletion resource cgroupID))
          fun cgroupID => fails (mappingDeletion resource cgroupID)
      else node.bpf.maps other := by
  unfold deleteCgroupMappings
  split
  next same => rw [same, edit_maps]
  next different => exact edit_other _ _ different

/-- Both resources lose the mappings and counters whose deletions succeed. -/
theorem removeCgroups_maps : (node.removeCgroups ns fails).bpf.maps resource =
    (node.bpf.maps resource).deleteCgroupMappings ((node.nsCgroups ns).getD ∅)
      (fun cgroupID => fails (counterDeletion resource cgroupID)) fun cgroupID => fails (mappingDeletion resource cgroupID) := by
  unfold removeCgroups
  cases node.nsCgroups ns with
  | none => simp [ResourceMaps.deleteCgroupMappings]
  | some known => cases resource <;> simp [deleteCgroupMappings_maps]

theorem removeCgroups_limits : ((node.removeCgroups ns fails).bpf.maps resource).nsLimit = (node.bpf.maps resource).nsLimit ∧
    ((node.removeCgroups ns fails).bpf.maps resource).nsCounter = (node.bpf.maps resource).nsCounter := by
  rw [removeCgroups_maps]
  exact ⟨rfl, rfl⟩

theorem removeCgroups_resolve : (node.removeCgroups ns fails).resolve = node.resolve := by
  unfold removeCgroups
  cases node.nsCgroups ns <;> rfl

end removal

theorem mapResolved_none (resource : Resource) (nsKey : UInt64) (cInfos : List CgroupInfo) (known : Finset UInt64)
    (node : Node) : ∃ all, (mapResolved resource nsKey cInfos none known node).1 = .ok all := by
  induction cInfos generalizing known node with
  | nil => exact ⟨known, rfl⟩
  | cons cInfo rest ih => exact ih _ _

theorem mapPods_none (node : Node) (resource : Resource) (ns : String) (pods : List Pod) :
    (node.mapPods resource ns pods none).1 = .ok () := by
  obtain ⟨all, ended⟩ := mapResolved_none resource (namespaceKey ns) (node.resolved pods) ∅
    { node with nsNameByKey := node.nsNameByKey.update (namespaceKey ns) ns }
  unfold mapPods
  simp only
  split
  next failed => rw [failed] at ended; cases ended
  · rfl

end Node

namespace Syncer
variable (s : Syncer)

theorem resetCounter_smooth (resource : Resource) (nsKey : UInt64) (limit : Int64) (world : Cluster) :
    Action.exec s smooth (resetCounter resource nsKey limit) world =
      (true, world.editNode s.nodeID
        ((world.nodes s.nodeID).edit resource fun maps => maps.resetNsCounter nsKey limit)) := rfl

/-- The spec of a sync that runs alone with every request succeeding. -/
theorem sync_smooth (resource : Resource) (ns : String) (limit : Int64) (batchSize : Option Int64) (world : Cluster) :
    let began := (s.effectiveLimit resource ns limit batchSize).exec s smooth world
    Action.exec s smooth (s.sync resource ns limit batchSize) world =
      (.ok (), began.2.editNode s.nodeID
        ((began.2.nodes s.nodeID).synced resource ns began.1 (began.2.pods ns))) := by
  simp only [sync, Action.exec_bind]
  generalize Action.exec s smooth (s.effectiveLimit resource ns limit batchSize) world = began
  obtain ⟨effective, world⟩ := began
  rw [Action.exec_perform]
  simp only [Cluster.serve, smooth, Option.isSome_none, Bool.false_eq_true, ↓reduceIte, Action.exec_bind,
    resetCounter_smooth, Cluster.editNode_self, Cluster.editNode_editNode, Node.edit_edit]
  rw [Action.exec_perform]
  simp only [Cluster.serve, smooth, Option.isSome_none, Bool.false_eq_true, ↓reduceIte, Action.exec_bind]
  rw [Action.exec_perform]
  simp only [Cluster.serve, smooth, Cluster.editNode_self, Cluster.editNode_editNode]
  have mapped := Node.mapPods_none ((world.nodes s.nodeID).limited resource ns effective) resource ns (world.pods ns)
  simp only [Node.limited] at mapped
  simp only [Cluster.editNode, mapped]
  rfl

/-- The spec of a removal that runs alone, when limits and counters are deleted. -/
theorem removeNamespace_exec {outcome : ControllerRequest → Option Nat}
    (limits : ∀ resource nsKey, outcome (.deleteNsLimit resource nsKey) = none)
    (counters : ∀ resource nsKey, outcome (.deleteNsCounter resource nsKey) = none) (ns : String) (world : Cluster) :
    let began := Flow.exec s outcome (s.releaseLeases ns) world
    Flow.exec s outcome (s.removeNamespace ns) world =
      ((), began.2.editNode s.nodeID
        (((began.2.nodes s.nodeID).unlimited ns).removeCgroups ns (fails (outcome (.removeCgroups ns))))) := by
  simp only [removeNamespace, Flow.exec_bind]
  generalize Flow.exec s outcome (s.releaseLeases ns) world = began
  iterate 5 rw [Flow.exec_issue]
  simp only [Cluster.control, limits, counters, Option.isSome_none, Bool.false_eq_true, ↓reduceIte, Cluster.editNode_self,
    Cluster.editNode_editNode, Node.edit_edit]
  rfl

theorem removeNamespace_smooth (ns : String) (world : Cluster) :
    let began := Flow.exec s smooth (s.releaseLeases ns) world
    Flow.exec s smooth (s.removeNamespace ns) world =
      ((), began.2.editNode s.nodeID ((began.2.nodes s.nodeID).removed ns)) :=
  s.removeNamespace_exec (fun _ _ => rfl) (fun _ _ => rfl) ns world

theorem releaseLeases_offNode (ns : String) (outcome : ControllerRequest → Option Nat) (world : Cluster) :
    OffNode world (Flow.exec s outcome (s.releaseLeases ns) world).2 := by
  unfold releaseLeases
  cases s.leaser with
  | none => exact .refl world
  | some leaser =>
    simp only [Flow.exec_bind, Flow.exec_lift, Flow.exec_return]
    exact (offNode_exec (leaser.releaseLease_asks _ _) _).trans (offNode_exec (leaser.releaseLease_asks _ _) _)

/-- What a half of `SyncFromQuota` makes of the cluster. -/
def syncedHalf (resource : Resource) (quota : ObjectQuota) (limit : Option Int64) (world : Cluster) : Cluster :=
  match limit with
  | none => world
  | some limit =>
    (Action.exec s smooth (s.sync resource quota.ns limit (some (quota.spec.leaseBatchSize.getD 0))) world).2

theorem whenSet_smooth (resource : Resource) (quota : ObjectQuota) (limit : Option Int64) (world : Cluster) :
    Flow.exec s smooth (whenSet limit fun limit =>
        s.sync resource quota.ns limit (some (quota.spec.leaseBatchSize.getD 0))) world =
      (.ok (), s.syncedHalf resource quota limit world) := by
  cases limit with
  | none => rfl
  | some limit =>
    have ended := s.sync_smooth resource quota.ns limit (some (quota.spec.leaseBatchSize.getD 0)) world
    simp only [whenSet, syncedHalf, Flow.exec_lift]
    change Action.exec s smooth _ world = _
    rw [ended]

/-- The spec of `SyncFromQuota`: one half after the other, or a removal. -/
theorem syncFromQuota_smooth (quota : ObjectQuota) (world : Cluster) :
    Flow.exec s smooth (s.syncFromQuota quota) world =
      (.ok (), if quota.spec.fileDescriptors = none ∧ quota.spec.processes = none then
        (Flow.exec s smooth (s.removeNamespace quota.ns) world).2
      else s.syncedHalf .proc quota quota.spec.processes (s.syncedHalf .fd quota quota.spec.fileDescriptors world)) := by
  have fd := s.whenSet_smooth .fd quota quota.spec.fileDescriptors
  have proc := s.whenSet_smooth .proc quota quota.spec.processes
  simp only [syncFromQuota, syncNamespace, syncProcessNamespace, Flow.exec_bind, fd, proc]
  split
  next neither =>
    rw [neither.1, neither.2, Flow.exec_bind]
    rfl
  · rfl

theorem reconcile_smooth (ns name : String) (world : Cluster) :
    (Flow.exec s smooth (s.reconcile ns name) world).2 =
      match world.quota ns name with
      | none => (Flow.exec s smooth (s.removeNamespace ns) world).2
      | some quota => (Flow.exec s smooth (s.syncFromQuota quota) world).2 := by
  simp only [reconcile, Flow.exec_bind]
  rw [Flow.exec_issue]
  simp only [Cluster.control, smooth, Option.isSome_none, Bool.false_eq_true, ↓reduceIte]
  cases world.quota ns name with
  | none => rfl
  | some quota =>
    simp only [Flow.exec_bind, Flow.exec_return]

section unleased
variable {s} (unleased : s.leaser = none)
include unleased

theorem syncedHalf_unleased (resource : Resource) (quota : ObjectQuota) (limit : Option Int64) (world : Cluster) :
    s.syncedHalf resource quota limit world =
      match limit with
      | none => world
      | some limit => world.editNode s.nodeID
          ((world.nodes s.nodeID).synced resource quota.ns limit (world.pods quota.ns)) := by
  cases limit with
  | none => rfl
  | some limit =>
    have ended := s.sync_smooth resource quota.ns limit (some (quota.spec.leaseBatchSize.getD 0)) world
    simp only [syncedHalf]
    rw [ended]
    simp only [effectiveLimit, unleased, Action.exec_return]

theorem removeNamespace_unleased (ns : String) (world : Cluster) :
    Flow.exec s smooth (s.removeNamespace ns) world =
      ((), world.editNode s.nodeID ((world.nodes s.nodeID).removed ns)) := by
  have ended := s.removeNamespace_smooth ns world
  simp only [releaseLeases, unleased, Flow.exec_return] at ended
  exact ended

end unleased

end Syncer
end QuotaManager
