import QuotaManager.Cluster
import QuotaManager.Proofs.Accounting

/-! What the requests and the kernel events do to the maps of a node. The locked
sections write mappings and nothing else. -/

namespace QuotaManager
open Enforcer

@[simp] theorem Node.edit_maps (node : Node) (resource : Resource) (change : ResourceMaps → ResourceMaps) :
    (node.edit resource change).bpf.maps resource = change (node.bpf.maps resource) := by
  simp only [Node.edit, Bpf.withMaps_maps]

theorem Node.edit_other (node : Node) {resource other : Resource} (change : ResourceMaps → ResourceMaps)
    (different : other ≠ resource) : (node.edit resource change).bpf.maps other = node.bpf.maps other :=
  Bpf.withMaps_other node.bpf _ different

/-- The requests that change the owner's node; all others leave every node alone. -/
def Request.editsNode : Request → Bool
  | .updateNsLimit _ _ _ | .updateNsCounter _ _ _ | .mapPods _ _ _ | .mapScanned _ _ _ => true
  | _ => false

theorem serve_api (world : Cluster) (owner : Syncer) {request : Request} (api : request.editsNode = false)
    (fault : Option Nat) : (world.serve owner request fault).2.nodes = world.nodes ∧
      (world.serve owner request fault).2.pods = world.pods := by
  cases request with
  | updateNsLimit | updateNsCounter | mapPods | mapScanned => cases api
  | updateStatus writer quota =>
    simp only [Cluster.serve]
    split
    · exact ⟨rfl, rfl⟩
    · split
      · dsimp only
        split <;> exact ⟨rfl, rfl⟩
      · exact ⟨rfl, rfl⟩
  | updateLease lease =>
    simp only [Cluster.serve]
    split
    · exact ⟨rfl, rfl⟩
    · split <;> exact ⟨rfl, rfl⟩
  | createLease | deleteLease =>
    simp only [Cluster.serve]
    split <;> exact ⟨rfl, rfl⟩
  | getQuota | listQuotas | getLease | listLeases | clock | listPods | lookupNsCounter | tracked => exact ⟨rfl, rfl⟩

/-- Only mappings were written in between. -/
structure Remapped (before after : Node) : Prop where
  cgroupCounter : ∀ resource, (after.bpf.maps resource).cgroupCounter = (before.bpf.maps resource).cgroupCounter
  nsLimit : ∀ resource, (after.bpf.maps resource).nsLimit = (before.bpf.maps resource).nsLimit
  nsCounter : ∀ resource, (after.bpf.maps resource).nsCounter = (before.bpf.maps resource).nsCounter

namespace Remapped

theorem refl (node : Node) : Remapped node node := ⟨fun _ => rfl, fun _ => rfl, fun _ => rfl⟩

theorem trans {first second third : Node} (one : Remapped first second) (two : Remapped second third) :
    Remapped first third :=
  ⟨fun resource => (two.cgroupCounter resource).trans (one.cgroupCounter resource),
    fun resource => (two.nsLimit resource).trans (one.nsLimit resource),
    fun resource => (two.nsCounter resource).trans (one.nsCounter resource)⟩

theorem updateCgroupMapping (node : Node) (resource : Resource) (cgroupID nsKey : UInt64) :
    Remapped node (node.updateCgroupMapping resource cgroupID nsKey) := by
  unfold Node.updateCgroupMapping
  refine ⟨fun other => ?_, fun other => ?_, fun other => ?_⟩
  all_goals
    by_cases same : other = resource
    · subst same
      rw [Node.edit_maps]
      rfl
    · rw [Node.edit_other _ _ same]

theorem recordPath (node : Node) (cInfo : CgroupInfo) : Remapped node (node.recordPath cInfo) :=
  ⟨fun _ => rfl, fun _ => rfl, fun _ => rfl⟩

theorem track (node : Node) (ns : String) (known : Finset UInt64) : Remapped node (node.track ns known) :=
  ⟨fun _ => rfl, fun _ => rfl, fun _ => rfl⟩

theorem mapResolved (resource : Resource) (nsKey : UInt64) (cInfos : List CgroupInfo) (fault : Option Nat)
    (known : Finset UInt64) (node : Node) : Remapped node (Node.mapResolved resource nsKey cInfos fault known node).2 := by
  induction cInfos generalizing fault known node with
  | nil => exact refl node
  | cons cInfo rest ih =>
    unfold Node.mapResolved
    split
    · exact refl node
    · exact ((updateCgroupMapping node resource _ _).trans (recordPath _ cInfo)).trans (ih _ _ _)

theorem mapPods (node : Node) (resource : Resource) (ns : String) (pods : List Pod) (fault : Option Nat) :
    Remapped node (node.mapPods resource ns pods fault).2 := by
  have mapped := mapResolved resource (namespaceKey ns) (node.resolved pods) fault ∅
    { node with nsNameByKey := node.nsNameByKey.update (namespaceKey ns) ns }
  have same : Remapped node (Node.mapResolved resource (namespaceKey ns) (node.resolved pods) fault ∅
      { node with nsNameByKey := node.nsNameByKey.update (namespaceKey ns) ns }).2 :=
    ⟨mapped.cgroupCounter, mapped.nsLimit, mapped.nsCounter⟩
  unfold Node.mapPods
  simp only
  split
  next ended => rw [ended] at same; exact same
  next ended => rw [ended] at same; exact same.trans (track _ _ _)

theorem mapScanned (ns : String) (cInfos : List CgroupInfo) (fails : Nat → Bool) (existing : Finset UInt64) (node : Node) :
    Remapped node (Node.mapScanned ns cInfos fails existing node).2 := by
  induction cInfos generalizing fails existing node with
  | nil => exact refl node
  | cons cInfo rest ih =>
    have first := updateCgroupMapping node .fd cInfo.cgroupID (namespaceKey ns)
    have second := first.trans (updateCgroupMapping _ .proc cInfo.cgroupID (namespaceKey ns))
    unfold Node.mapScanned
    split
    · exact ih _ _ _
    · split
      · exact ih _ _ _
      · simp only
        split
        · exact first.trans (ih _ _ _)
        · split
          · exact second
          · exact (second.trans ((track _ _ _).trans (recordPath _ cInfo))).trans (ih _ _ _)

end Remapped
end QuotaManager
