import QuotaManager.Proofs.Credits
import QuotaManager.Proofs.Heartbeat
import QuotaManager.Proofs.LeaseRequest

/-! What one reclaim makes of a status: the entries of the nodes without a recent
heartbeat go, all others stay, and the version and the available amount follow. The
sums are those of `int64`, which wrap around. -/

namespace QuotaManager
open Enforcer Holdings

/-- A node other than the caller with an entry in the status, but not active. -/
def Loses (quota : ObjectQuota) (caller : String) (active : String → Prop) : Prop :=
  ∃ node, (node ∈ quota.status.fdAllocations ∨ node ∈ quota.status.procAllocations) ∧ node ≠ caller ∧ ¬ active node

/-- The allocations are the old ones of the caller and the active nodes. -/
structure Restricted (before after : Allocations) (caller : String) (active : String → Prop) : Prop where
  stays : ∀ node, node = caller ∨ active node → after.lookup node = before.lookup node
  leaves : ∀ node, node ≠ caller → ¬ active node → after.lookup node = none

structure Reclaimed (before after : ObjectQuota) (caller : String) (active : String → Prop) : Prop where
  fd : Restricted before.status.fdAllocations after.status.fdAllocations caller active
  proc : Restricted before.status.procAllocations after.status.procAllocations caller active
  version : Loses before caller active → after.status.version = some (before.status.version.getD 0 + 1)
  available : Loses before caller active → after.status.availableFD =
    Int64.ofInt ((before.spec.fileDescriptors.getD 0).toInt - credits after.status.fdAllocations)
  untouched : ¬ Loses before caller active → after = before

/-- When nobody loses anything, nothing need be done. -/
theorem Reclaimed.self {quota : ObjectQuota} {caller : String} {active : String → Prop} (nobody : ¬ Loses quota caller active) :
    Reclaimed quota quota caller active := by
  refine ⟨⟨fun _ _ => rfl, fun node other dead => ?_⟩, ⟨fun _ _ => rfl, fun node other dead => ?_⟩,
    fun loses => absurd loses nobody, fun loses => absurd loses nobody, fun _ => rfl⟩
  · apply AList.lookup_eq_none.mpr
    intro member
    exact nobody ⟨node, .inl member, other, dead⟩
  · apply AList.lookup_eq_none.mpr
    intro member
    exact nobody ⟨node, .inr member, other, dead⟩

section
variable {quota : ObjectQuota} {caller : String} {active : String → Bool}

theorem retain_restricted {allocations : Allocations} :
    Restricted allocations (retain (fun node => node = caller ∨ active node) allocations) caller (active · = true) := by
  refine ⟨fun node kept => ?_, fun node other dead => ?_⟩
  · rw [lookup_retain, if_pos (by simpa using kept)]
  · rw [lookup_retain, if_neg (by simp only [other, false_or, dead, decide_false, Bool.false_eq_true, not_false_eq_true])]

theorem loses_any {allocations : Allocations} :
    (allocations.entries.any fun entry => ! (decide (entry.1 = caller ∨ active entry.1 = true) : Bool)) = true ↔
      ∃ node ∈ allocations, node ≠ caller ∧ ¬ active node = true := by
  simp only [List.any_eq_true, Bool.not_eq_true', decide_eq_false_iff_not, not_or]
  constructor
  · rintro ⟨⟨node, amount⟩, member, lost⟩
    exact ⟨node, AList.mem_keys.mpr (List.mem_keys_of_mem member), lost⟩
  · rintro ⟨node, member, lost⟩
    obtain ⟨amount, inside⟩ := List.mem_keys.mp (AList.mem_keys.mp member)
    exact ⟨⟨node, amount⟩, inside, lost⟩

/-- What a reclaim computes, whether somebody loses or nobody. -/
theorem reclaimed_spec (quota : ObjectQuota) (caller : String) (active : String → Bool) :
    match (reclaimed quota caller active).value with
    | none => ¬ Loses quota caller (active · = true)
    | some status => Loses quota caller (active · = true) ∧
        ∀ resourceVersion, Reclaimed quota { quota with status, resourceVersion } caller (active · = true) := by
  have some_lost : ((quota.status.fdAllocations.entries.any fun entry => ! decide (entry.1 = caller ∨ active entry.1 = true)) = true ∨
      (quota.status.procAllocations.entries.any fun entry => ! decide (entry.1 = caller ∨ active entry.1 = true)) = true) ↔
      Loses quota caller (active · = true) := by
    rw [loses_any, loses_any, ← exists_or]
    apply exists_congr
    intro node
    exact or_and_right.symm
  unfold reclaimed
  dsimp only
  by_cases loses : Loses quota caller (active · = true)
  · rw [if_pos (some_lost.mpr loses)]
    refine ⟨loses, fun resourceVersion => ⟨retain_restricted, retain_restricted, fun _ => rfl, fun _ => ?_, ?_⟩⟩
    · dsimp only [Checked.bind_value, Checked.sub_value, Checked.pure_value]
      rw [Checked.sum_value, Within.amounts_sum, Int64.ofInt_sub, Int64.ofInt_toInt]
    · intro nobody
      exact absurd loses nobody
  · rw [if_neg (mt some_lost.mp loses)]
    exact loses

end

/-- A reclaim on its own: with every call succeeding it takes what the other nodes
without a heartbeat have, and nothing else; when its update fails it reports that and
leaves the status alone. -/
theorem reclaim_exact (s : Syncer) (m : K8sLeaseManager) {world : Cluster} {ns : String} {quota : ObjectQuota}
    (found : world.quota ns ns = some quota) {outcome : Request → Option Nat}
    (reads : outcome (.getQuota ns ns) = none) (lists : outcome (.listLeases ns) = none) :
    let ended := Action.exec s outcome (m.reclaimExpiredLeases ns) world
    ((∀ status, outcome (.updateStatus .reclaim { quota with status }) = none) →
      ended.1 = .ok () ∧ ∃ stored, ended.2.quota ns ns = some stored ∧ Reclaimed quota stored m.nodeID (Beats world ns)) ∧
    ((∀ status, outcome (.updateStatus .reclaim { quota with status }) ≠ none) →
      Loses quota m.nodeID (Beats world ns) → ended = (.error .updateReclaimed, world)) := by
  have same : (activeNodes (world.leases.filter fun lease => lease.ns = ns) world.now · = true) = Beats world ns := by
    funext node
    exact propext (activeNodes_iff world.leases world.now ns node)
  have spec := reclaimed_spec quota m.nodeID (activeNodes (world.leases.filter fun lease => lease.ns = ns) world.now)
  rw [same] at spec
  have read : world.serve s (.getQuota ns ns) (outcome (.getQuota ns ns)) = (some quota, world) := by
    simp only [Cluster.serve, reads, Option.isSome_none, Bool.false_eq_true, ↓reduceIte, found]
  have listed : world.serve s (.listLeases ns) (outcome (.listLeases ns)) =
      (some (world.leases.filter fun lease => lease.ns = ns), world) := by
    simp only [Cluster.serve, lists, Option.isSome_none, Bool.false_eq_true, ↓reduceIte]
  unfold K8sLeaseManager.reclaimExpiredLeases
  rw [Action.exec_bind, Action.exec_perform, read]
  dsimp only
  rw [Action.exec_bind, Action.exec_perform, listed]
  dsimp only
  rw [Action.exec_bind, Action.exec_perform]
  change _ ∧ _
  dsimp only [Cluster.serve]
  cases computed : (reclaimed quota m.nodeID
      (activeNodes (world.leases.filter fun lease => lease.ns = ns) world.now)).value with
  | none =>
    rw [computed] at spec
    exact ⟨fun _ => ⟨rfl, quota, found, .self spec⟩, fun _ loses => absurd loses spec⟩
  | some status =>
    rw [computed] at spec
    dsimp only
    rw [Action.exec_bind, Action.exec_perform]
    obtain ⟨sameNs, sameName⟩ := Cluster.quota_named found
    have current : world.quota quota.ns quota.name = some quota := by rw [sameNs, sameName, found]
    refine ⟨fun updates => ?_, fun fails _ => ?_⟩
    · have served : world.serve s (.updateStatus .reclaim { quota with status })
          (outcome (.updateStatus .reclaim { quota with status })) =
          (true, world.commitStatus .reclaim { quota with status }) := by
        simp only [Cluster.serve, updates, current, and_self, ↓reduceIte, reduceCtorEq, or_self]
      rw [served]
      refine ⟨rfl, _, ?_, spec.2 (world.revision + 1)⟩
      change (world.commitStatus .reclaim { quota with status }).quota ns ns = _
      rw [Cluster.quota_commitStatus, found, Option.map_some, if_pos ⟨sameNs.symm, sameName.symm⟩]
    · have served : world.serve s (.updateStatus .reclaim { quota with status })
          (outcome (.updateStatus .reclaim { quota with status })) = (false, world) := by
        simp only [Cluster.serve, fails, current, false_and, ↓reduceIte]
      rw [served]
      rfl

/-- Node `a` reclaims what `c` has, with an update that succeeds or fails; one of the
heartbeats of `b` is recent. -/
theorem reclaim_exact_team :
    let quota : ObjectQuota := ⟨"team", "team", 0, ⟨some 100, some 50, none⟩,
      ⟨((AList.insert "a" 10 ∅).insert "b" 20).insert "c" 30, AList.insert "c" 5 ∅, 40, some 3⟩⟩
    let heartbeat (name : String) (renewed : Option Int) : Lease := ⟨"team", name, 0, some "b", renewed⟩
    let world : Cluster := { Cluster.empty [quota] with
      now := 100 * second, leases := [heartbeat "x" none, heartbeat "y" (some (50 * second)), heartbeat "z" (some 0)] }
    let m := newK8sLeaseManager "a" 1000
    let ended (updates : Option Nat) := Action.exec ⟨"a", some m⟩
      (fun request => if request.writesStatus then updates else none) (m.reclaimExpiredLeases "team") world
    ((ended none).1 = .ok () ∧ ∃ stored, (ended none).2.quota "team" "team" = some stored ∧
      Reclaimed quota stored "a" (Beats world "team")) ∧ ended (some 0) = (.error .updateReclaimed, world) := by
  intro quota heartbeat world m ended
  have found : world.quota "team" "team" = some quota := rfl
  have loses : Loses quota m.nodeID (Beats world "team") := by
    refine ⟨"c", by decide +kernel, by decide +kernel, ?_⟩
    rw [Beats, ← activeNodes_iff]
    decide +kernel
  refine ⟨?_, ?_⟩
  · apply (reclaim_exact ⟨"a", some m⟩ m found _ _).1 fun _ => rfl
    · rfl
    · rfl
  · apply (reclaim_exact ⟨"a", some m⟩ m found _ _).2 (fun _ => by simp [Request.writesStatus]) loses
    · rfl
    · rfl

end QuotaManager
