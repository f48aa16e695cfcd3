import QuotaManager.Proofs.PodCoverage
import QuotaManager.Proofs.SpecConvergence
import QuotaManager.Proofs.StatusUpdate

/-! What a reconcile that returns no error has done, when any of its requests may fail.
The syncs report every failure. The read of the quota reports only that it is missing,
and a removal reports nothing. -/

namespace QuotaManager
open Enforcer

/-- The limits that the spec sets are in force and the cgroups of the pods are mapped for
them; without a quota there is no limit left. -/
def WorkDone (quota : Option ObjectQuota) (ns : String) (pods : List Pod) (node : Node) : Prop :=
  match quota with
  | none => ∀ resource, node.limit resource ns = none
  | some quota => ∀ resource limit, quota.spec.limit resource = some limit →
      node.limit resource ns = some limit.toUInt64 ∧
        ∀ cInfo ∈ node.resolved pods, (node.bpf.maps resource).cgroup cInfo.cgroupID = some (namespaceKey ns)

section
variable {s : Syncer} {ns : String} {world later : Cluster} {turns : List (ControllerRequest × Option Nat)}

theorem control_deleteNsLimit (s : Syncer) (ns : String) (resource other : Resource) (fault : Option Nat) (world : Cluster) :
    ((world.control s (.deleteNsLimit other (namespaceKey ns)) fault).2.nodes s.nodeID).limit resource ns =
      if resource = other ∧ fault = none then none else (world.nodes s.nodeID).limit resource ns := by
  cases fault with
  | some fault => simp [Cluster.control]
  | none =>
    simp only [Cluster.control, Option.isSome_none, Bool.false_eq_true, ↓reduceIte, Cluster.editNode_self, and_true,
      Node.limit]
    split
    next same =>
      rw [same, Node.edit_maps]
      exact BpfMap.delete_self ..
    next different => rw [Node.edit_other _ _ different]

theorem control_deleteNsCounter (s : Syncer) (ns : String) (resource other : Resource) (nsKey : UInt64) (fault : Option Nat)
    (world : Cluster) : ((world.control s (.deleteNsCounter other nsKey) fault).2.nodes s.nodeID).limit resource ns =
      (world.nodes s.nodeID).limit resource ns := by
  simp only [Cluster.control]
  split
  · rfl
  · simp only [Cluster.editNode_self, Node.limit]
    by_cases same : resource = other
    · rw [same, Node.edit_maps]
      rfl
    · rw [Node.edit_other _ _ same]

/-- A deletion that fails leaves the entry that it finds. -/
theorem removal_limit (unleased : s.leaser = none) (ended : Flow.Ends s (s.removeNamespace ns) world turns () later)
    (resource : Resource) : (later.nodes s.nodeID).limit resource ns = none ↔
      ((∃ fault, (.deleteNsLimit resource (namespaceKey ns), some fault) ∈ turns) →
        (world.nodes s.nodeID).limit resource ns = none) := by
  unfold Syncer.removeNamespace Syncer.releaseLeases at ended
  rw [unleased] at ended
  obtain ⟨_, _, _, _, rfl, released, removing⟩ := Program.ends_bind.mp ended
  obtain ⟨rfl, -, rfl⟩ := Program.ends_done.mp released
  obtain ⟨fdLimit, _, rfl, first⟩ := Program.ends_call.mp removing
  obtain ⟨fdCounter, _, rfl, second⟩ := Program.ends_call.mp first
  obtain ⟨procLimit, _, rfl, third⟩ := Program.ends_call.mp second
  obtain ⟨procCounter, _, rfl, fourth⟩ := Program.ends_call.mp third
  obtain ⟨cgroups, _, rfl, fifth⟩ := Program.ends_ask.mp fourth
  obtain ⟨rfl, -, rfl⟩ := Program.ends_done.mp fifth
  have last (world : Cluster) : ((world.control s (.removeCgroups ns) cgroups).2.nodes s.nodeID).limit resource ns =
      (world.nodes s.nodeID).limit resource ns := by
    simp only [Cluster.control, Cluster.editNode_self, Node.removeCgroups_limit]
  rw [last, control_deleteNsCounter, control_deleteNsLimit, control_deleteNsCounter, control_deleteNsLimit]
  cases resource with
  | fd => cases fdLimit <;> simp
  | proc => cases procLimit <;> simp

/-- A `SyncFromQuota` that returns without an error has done its work. -/
theorem syncFromQuota_done (unleased : s.leaser = none) {quota : ObjectQuota} (named : quota.ns = ns)
    (returned : Flow.Ends s (s.syncFromQuota quota) world turns (.ok ()) later) :
    WorkDone (some quota) ns (world.pods ns) (later.nodes s.nodeID) := by
  subst named
  obtain ⟨middle, last, fd, proc, ended⟩ := Syncer.syncFromQuota_returns returned
  rintro resource limit set
  obtain rfl : later = last := by
    apply ended.resolve_right
    rintro ⟨fdUnset, procUnset⟩
    cases resource with
    | fd => cases fdUnset.symm.trans set
    | proc => cases procUnset.symm.trans set
  have half {resource : Resource} {limit : Option Int64} {before after : Cluster}
      (half : Syncer.HalfReturned s resource quota.ns limit before after) :
      after.pods = before.pods ∧ (after.nodes s.nodeID).resolve = (before.nodes s.nodeID).resolve := by
    rcases half with ⟨_, rfl⟩ | ⟨_, _, returned⟩
    · exact ⟨rfl, rfl⟩
    · exact ⟨returned.pods, returned.resolve⟩
  have resolved : (later.nodes s.nodeID).resolved (world.pods quota.ns) = (world.nodes s.nodeID).resolved (world.pods quota.ns) := by
    unfold Node.resolved
    rw [(half proc).2, (half fd).2]
  have inside {cInfo : CgroupInfo} (member : cInfo ∈ (world.nodes s.nodeID).resolved (world.pods quota.ns)) :
      cInfo.cgroupID ∈ identifiers ((world.nodes s.nodeID).resolved (world.pods quota.ns)) := by
    simp only [identifiers, List.mem_toFinset, List.mem_map]
    exact ⟨cInfo, member, rfl⟩
  rw [resolved]
  cases resource with
  | fd =>
    obtain ⟨value, set', first⟩ := fd.resolve_left fun unset => Option.some_ne_none limit (set.symm.trans unset.1)
    obtain rfl := Option.some.inj (set.symm.trans set')
    rcases proc with ⟨_, rfl⟩ | ⟨_, _, second⟩
    · refine ⟨first.limit unleased, fun cInfo member => ?_⟩
      change (Node.book _).cgroup .fd _ = _
      rw [first.book, Book.sync_cgroup, if_pos ⟨rfl, inside member⟩]
    · refine ⟨(congrFun (second.other .fd (by decide)) _).trans (first.limit unleased), fun cInfo member => ?_⟩
      change (Node.book _).cgroup .fd _ = _
      rw [second.book, Book.sync_cgroup, if_neg (by simp), first.book, Book.sync_cgroup, if_pos ⟨rfl, inside member⟩]
  | proc =>
    obtain ⟨value, set', second⟩ := proc.resolve_left fun unset => Option.some_ne_none limit (set.symm.trans unset.1)
    obtain rfl := Option.some.inj (set.symm.trans set')
    have again : (middle.nodes s.nodeID).resolved (middle.pods quota.ns) =
        (world.nodes s.nodeID).resolved (world.pods quota.ns) := by
      unfold Node.resolved
      rw [(half fd).1, (half fd).2]
    refine ⟨second.limit unleased, fun cInfo member => ?_⟩
    change (Node.book _).cgroup .proc _ = _
    rw [second.book, Book.sync_cgroup, again, if_pos ⟨rfl, inside member⟩]

/-- A reconcile reports success only for work that is done, exactly if a read of the quota
that fails otherwise than by finding none finds the work done, and a failed deletion of a
limit without a quota finds no limit. -/
theorem success_is_done_iff (unleased : s.leaser = none) {name : String} {result : Except SyncError Unit}
    (ended : Flow.Ends s (s.reconcileReturning ns name) world turns result later) :
    (result = .ok () → WorkDone (world.quota ns name) ns (world.pods ns) (later.nodes s.nodeID)) ↔
      ((∃ fault, turns.head? = some (.getQuota ns name, some fault)) →
        WorkDone (world.quota ns name) ns (world.pods ns) (world.nodes s.nodeID)) ∧
      (world.quota ns name = none → ∀ resource,
        (∃ fault, (.deleteNsLimit resource (namespaceKey ns), some fault) ∈ turns) →
          (world.nodes s.nodeID).limit resource ns = none) := by
  unfold Syncer.reconcileReturning at ended
  obtain ⟨read, rest, rfl, going⟩ := Program.ends_call.mp ended
  cases read with
  | some fault =>
    obtain ⟨rfl, rfl, rfl⟩ := Program.ends_done.mp going
    simp
  | none =>
    simp only [Cluster.control, Option.isSome_none, Bool.false_eq_true, ↓reduceIte] at going
    cases found : world.quota ns name with
    | some quota =>
      rw [found] at going
      simp only [List.head?_cons, Option.some.injEq, Prod.mk.injEq, reduceCtorEq, and_false, exists_const, false_implies,
        and_self, iff_true]
      rintro rfl
      exact syncFromQuota_done unleased (Cluster.quota_named found).1 going
    | none =>
      rw [found] at going
      obtain ⟨_, _, _, _, rfl, removed, last⟩ := Program.ends_bind.mp going
      obtain ⟨rfl, rfl, rfl⟩ := Program.ends_done.mp last
      have limits := removal_limit unleased removed
      simp [WorkDone, limits]

end

section runs

def limitedQuota : ObjectQuota := ⟨"team", "team", 0, ⟨some 5, none, none⟩, .empty⟩

/-- The quota is synced with a pod that has two cgroups. -/
theorem success_is_done_team :
    let s : Syncer := ⟨"node", none⟩
    let pods : List Pod := [⟨"pod", .running⟩]
    let cgroups : List CgroupInfo := [⟨7, "/seven"⟩, ⟨8, "/eight"⟩]
    let world := ((Cluster.empty [limitedQuota]).drift (.pods "team" pods)).drift (.resolver "node" "pod" (some cgroups))
    ∃ turns later, Flow.Ends s (s.reconcileReturning "team" "team") world turns (.ok ()) later ∧
      (later.nodes "node").resolved pods = cgroups ∧ WorkDone (world.quota "team" "team") "team" pods (later.nodes "node") := by
  intro s pods cgroups world
  obtain ⟨turns, ended, outcomes⟩ := Flow.ends_exec s smooth (s.reconcileReturning "team" "team") world
  refine ⟨turns, _, ended, by decide +kernel, (success_is_done_iff rfl ended).mpr ⟨?_, ?_⟩ rfl⟩
  · rintro ⟨fault, first⟩
    cases outcomes _ (List.mem_of_mem_head? first)
  · rintro missing
    cases missing

/-- The read of a quota fails; or it is deleted, and the deletion of its limit fails. -/
theorem failures_swallowed :
    let s : Syncer := ⟨"node", none⟩
    let kept := Cluster.empty [limitedQuota]
    let deleted := (Cluster.empty []).editNode "node" (Node.empty.limited .fd "team" 5)
    (∃ turns later, Flow.Ends s (s.reconcileReturning "team" "team") kept turns (.ok ()) later ∧
      ¬ WorkDone (kept.quota "team" "team") "team" [] (later.nodes "node")) ∧
    ∃ turns later, Flow.Ends s (s.reconcileReturning "team" "team") deleted turns (.ok ()) later ∧
      ¬ WorkDone (deleted.quota "team" "team") "team" [] (later.nodes "node") := by
  intro s kept deleted
  constructor
  · obtain ⟨turns, ended, -⟩ := Flow.ends_exec s (fun _ => some 0) (s.reconcileReturning "team" "team") kept
    refine ⟨turns, _, ended, fun done => ?_⟩
    cases (done .fd 5 rfl).1
  · obtain ⟨turns, ended, -⟩ := Flow.ends_exec s
      (fun request => match request with | .deleteNsLimit _ _ => some 0 | _ => none) (s.reconcileReturning "team" "team") deleted
    refine ⟨turns, _, ended, fun done => ?_⟩
    cases done .fd

end runs
end QuotaManager
