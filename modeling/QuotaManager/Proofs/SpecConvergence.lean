import QuotaManager.Proofs.Sequential
import QuotaManager.Logic.Trace

/-! The limits in force after a reconcile against those of the spec. Each half of a
sync writes the limit of its own resource, and only a spec without any limit deletes;
so a limit that a spec has dropped stays next to one that it keeps. -/

namespace QuotaManager
open Enforcer

/-- The limit that is stored for a namespace. -/
def Node.limit (node : Node) (resource : Resource) (ns : String) : Option UInt64 :=
  (node.bpf.maps resource).nsLimit (namespaceKey ns)

namespace Node
variable (node : Node) (resource : Resource) (ns : String)

theorem synced_limit (limit : Int64) (pods : List Pod) (other : Resource) :
    (node.synced resource ns limit pods).limit other ns =
      if other = resource then some limit.toUInt64 else node.limit other ns := by
  simp only [Node.limit, synced, (Remapped.mapPods _ resource ns pods none).nsLimit other, limited]
  split
  next same =>
    rw [same, edit_maps]
    exact BpfMap.update_self ..
  next different => rw [edit_other _ _ different]

theorem removeCgroups_limit (other : Resource) (fails : Nat → Bool) :
    (node.removeCgroups ns fails).limit other ns = node.limit other ns :=
  congrFun (node.removeCgroups_limits other ns fails).1 _

theorem unlimited_limit (other : Resource) : (node.unlimited ns).limit other ns = none := by
  cases other <;> exact BpfMap.delete_self ..

theorem removed_limit (other : Resource) : (node.removed ns).limit other ns = none := by
  rw [removed, removeCgroups_limit, unlimited_limit]

end Node

section call
variable {s : Syncer} (unleased : s.leaser = none)
include unleased

/-- What `SyncFromQuota` leaves: the limits of the spec, and where the spec has only the
other one the limit that was there before. -/
theorem syncFromQuota_limit (quota : ObjectQuota) (world : Cluster) (resource : Resource) :
    ((Flow.exec s smooth (s.syncFromQuota quota) world).2.nodes s.nodeID).limit resource quota.ns =
      match quota.spec.limit resource with
      | some limit => some limit.toUInt64
      | none =>
        if quota.spec.fileDescriptors = none ∧ quota.spec.processes = none then none
        else (world.nodes s.nodeID).limit resource quota.ns := by
  rw [s.syncFromQuota_smooth]
  simp only [Syncer.removeNamespace_unleased unleased, Syncer.syncedHalf_unleased unleased]
  cases fd : quota.spec.fileDescriptors with
  | none =>
    cases proc : quota.spec.processes with
    | none =>
      simp only [and_self, ↓reduceIte, Cluster.editNode_self, Node.removed_limit]
      cases resource <;> simp only [ObjectQuotaSpec.limit, fd, proc]
    | some procLimit =>
      simp only [reduceCtorEq, and_false, ↓reduceIte, Cluster.editNode_self, Node.synced_limit]
      cases resource <;> simp [ObjectQuotaSpec.limit, fd, proc]
  | some fdLimit =>
    cases proc : quota.spec.processes with
    | none =>
      simp only [reduceCtorEq, false_and, ↓reduceIte, Cluster.editNode_self, Node.synced_limit]
      cases resource <;> simp [ObjectQuotaSpec.limit, fd, proc]
    | some procLimit =>
      simp only [reduceCtorEq, false_and, ↓reduceIte, Cluster.editNode_self, Node.synced_limit]
      cases resource <;> simp [ObjectQuotaSpec.limit, fd, proc]

end call

/-- The calls of a history, and whatever else happens between them. -/
inductive SyncerCall where
  | syncFromQuota (quota : ObjectQuota)
  | removeNamespace (ns : String)
  | drift (change : Change)

namespace SyncerCall

/-- One call that runs alone with every map call succeeding. -/
def after (s : Syncer) (world : Cluster) : SyncerCall → Cluster
  | .syncFromQuota quota => (Flow.exec s smooth (s.syncFromQuota quota) world).2
  | .removeNamespace ns => (Flow.exec s smooth (s.removeNamespace ns) world).2
  | .drift change => world.drift change

/-- After a sync that returns nil the limits in force are those of its spec. -/
def Converges (s : Syncer) (world : Cluster) (call : SyncerCall) : Prop :=
  ∀ quota, call = .syncFromQuota quota → (Flow.exec s smooth (s.syncFromQuota quota) world).1 = .ok () →
    ∀ resource, ((call.after s world).nodes s.nodeID).limit resource quota.ns =
      (quota.spec.limit resource).map Int64.toUInt64

/-- A resource that the spec leaves out next to one that it sets has no limit yet. -/
def FindsNoStale (s : Syncer) (world : Cluster) (call : SyncerCall) : Prop :=
  ∀ quota, call = .syncFromQuota quota → ∀ set unset, quota.spec.limit set ≠ none → quota.spec.limit unset = none →
    (world.nodes s.nodeID).limit unset quota.ns = none

end SyncerCall

theorem converges_iff {s : Syncer} (unleased : s.leaser = none) (world : Cluster) (call : SyncerCall) :
    call.Converges s world ↔ call.FindsNoStale s world := by
  constructor
  · rintro converges quota rfl set unset inSpec left
    have ended := converges quota rfl (by rw [s.syncFromQuota_smooth]) unset
    rw [left, Option.map_none] at ended
    simp only [SyncerCall.after, syncFromQuota_limit unleased, left] at ended
    rw [if_neg] at ended
    · exact ended
    · rintro ⟨fd, proc⟩
      cases set
      · exact inSpec fd
      · exact inSpec proc
  · rintro stale quota rfl _ resource
    simp only [SyncerCall.after, syncFromQuota_limit unleased]
    cases left : quota.spec.limit resource with
    | some limit => rfl
    | none =>
      simp only [Option.map_none]
      split
      · rfl
      next some_set =>
        by_cases fd : quota.spec.limit .fd = none
        · exact stale quota rfl .proc resource (fun proc => some_set ⟨fd, proc⟩) left
        · exact stale quota rfl .fd resource fd left

/-- In every history a sync converges exactly when it finds no stale limit. -/
theorem syncs_converge_iff {s : Syncer} (unleased : s.leaser = none) (world : Cluster) (calls : List SyncerCall) :
    Trace.Along (SyncerCall.after s) (fun world call => call.Converges s world ↔ call.FindsNoStale s world) world calls :=
  .of_all fun world call => converges_iff unleased world call

/-- A quota that drops its process limit and keeps its descriptor limit. -/
theorem dropped_limit_stays :
    let s : Syncer := ⟨"node", none⟩
    let quota (processes : Option Int64) : ObjectQuota := ⟨"team", "limits", 0, ⟨some 5, processes, none⟩, .empty⟩
    let calls : List SyncerCall := [.syncFromQuota (quota (some 7)), .syncFromQuota (quota none)]
    s.leaser = none ∧ ¬ Trace.Along (SyncerCall.after s) (fun world call => call.Converges s world) (.empty []) calls := by
  intro s quota calls
  refine ⟨rfl, ?_⟩
  rintro ⟨_, converges, _⟩
  have ended := converges (quota none) rfl (by rw [s.syncFromQuota_smooth]) .proc
  exact absurd ended (by decide +kernel)

/-- The namespace is removed before the quota comes back without its process limit. -/
theorem removal_lets_converge :
    let s : Syncer := ⟨"node", none⟩
    let quota (processes : Option Int64) : ObjectQuota := ⟨"team", "limits", 0, ⟨some 5, processes, none⟩, .empty⟩
    let calls : List SyncerCall := [.syncFromQuota (quota (some 7)), .removeNamespace "team", .syncFromQuota (quota none)]
    Trace.Along (SyncerCall.after s) (fun world call => call.Converges s world) (.empty []) calls := by
  intro s quota calls
  obtain ⟨first, removal, second, _⟩ := syncs_converge_iff (show s.leaser = none from rfl) (.empty []) calls
  refine ⟨first.mpr ?_, removal.mpr nofun, second.mpr ?_, trivial⟩
  · rintro _ ⟨⟩ set unset _ _
    cases unset <;> rfl
  · rintro _ ⟨⟩ set unset _ left
    cases unset with
    | fd => cases left
    | proc => decide +kernel

end QuotaManager
