import QuotaManager.Proofs.CreditPool

/-! The limit in force against the credit that is recorded. A request for credits looks
up the quota that carries the name of the namespace, whatever the quota is called that
the limit comes from; a quota with a name of its own is enforced as a whole. -/

namespace QuotaManager
open Enforcer Holdings

/-- The only quota of its namespace. -/
structure Only (world : Cluster) (quota : ObjectQuota) : Prop where
  stored : world.quota quota.ns quota.name = some quota
  alone : ∀ name, name ≠ quota.name → world.quota quota.ns name = none

/-- The limit in force on a node is the positive credit that the stored quota records for it. -/
def Recorded (resource : Resource) (ns name node : String) (world : Cluster) : Prop :=
  ∃ stored amount, world.quota ns name = some stored ∧ (stored.status.allocations resource).lookup node = some amount ∧
    1 ≤ amount.toInt ∧ (world.nodes node).limit resource ns = some amount.toUInt64

section named
variable {s : Syncer} {m : K8sLeaseManager} {quota : ObjectQuota} {resource : Resource} {limit : Int64} {old : Option Int64}

theorem Draws.credited {before after : Allocations} {nodeID : String} {drawn : Int64} (draws : Draws limit nodeID before drawn after)
    (credited : nodeID ∈ before ∨ credits before < limit.toInt) : 1 ≤ drawn.toInt := by
  cases draws with
  | held found positive => exact positive
  | exhausted fresh full =>
    rcases credited with present | room
    · exact absurd present fresh
    · omega
  | granted fresh positive room => exact positive

theorem sync_recorded {world : Cluster} {ns : String} (leased : s.leaser = some m) (own : s.nodeID = m.nodeID)
    (decodes : Decodes (Syncer.leaseKey resource ns) resource ns) (found : world.quota ns ns = some quota)
    (set : quota.spec.limit resource = some limit) (positive : 1 ≤ limit.toInt)
    (within : Within old (quota.status.allocations resource))
    (credited : s.nodeID ∈ quota.status.allocations resource ∨ credits (quota.status.allocations resource) < limit.toInt)
    (amount : Int64) (batchSize : Option Int64) :
    Recorded resource ns ns s.nodeID (Action.exec s smooth (s.sync resource ns amount batchSize) world).2 := by
  obtain ⟨drawn, later, effective, stored, _, draws⟩ :=
    s.effectiveLimit_draws amount batchSize world leased own decodes found set (by omega) within
  have something := draws.credited credited
  have more : drawn > 0 := by
    rw [gt_iff_lt, Int64.lt_iff_toInt_lt, Int64.toInt_zero]
    omega
  have drew : drawn ≠ 0 := by
    rintro rfl
    exact absurd more (by decide)
  rw [if_pos more] at effective
  obtain ⟨limits, _⟩ := s.sync_limits resource ns amount batchSize world
  refine ⟨later, drawn, ?_, (draws.recorded drew).1, something, ?_⟩
  · rw [(exec_sync_quotas s smooth resource ns amount batchSize world).quota]
    exact stored
  · rw [← effective]
    exact (limits resource).trans (if_pos rfl)

end named

section call
variable {s : Syncer} {quota : ObjectQuota} {resource : Resource} {limit : Int64} {world : Cluster}
  (decodes : ∀ resource, Decodes (Syncer.leaseKey resource quota.ns) resource quota.ns)
  (set : quota.spec.limit resource = some limit)
include decodes set

/-- The quota carries the name of its namespace. -/
theorem call_recorded {m : K8sLeaseManager} {old : Option Int64} (leased : s.leaser = some m) (own : s.nodeID = m.nodeID)
    (found : world.quota quota.ns quota.ns = some quota) (positive : 1 ≤ limit.toInt)
    (within : Within old (quota.status.allocations resource))
    (credited : s.nodeID ∈ quota.status.allocations resource ∨ credits (quota.status.allocations resource) < limit.toInt) :
    Recorded resource quota.ns quota.ns s.nodeID (Flow.exec s smooth (s.syncFromQuota quota) world).2 := by
  let begun (world : Cluster) : Prop := ∃ stored, world.quota quota.ns quota.ns = some stored ∧ stored.spec = quota.spec ∧
    stored.status.allocations resource = quota.status.allocations resource
  have away (world : Cluster) := (s.syncedHalf_outside quota (quota.spec.limit resource.other) world (decodes resource.other))
    resource quota.ns quota.ns fun same => resource.other_ne same.1.symm
  have specs (world : Cluster) :=
    s.syncedHalf_specs quota resource.other (quota.spec.limit resource.other) world quota.ns quota.ns
  have start : begun world := ⟨quota, found, rfl, rfl⟩
  refine Syncer.syncFromQuota_rule set ?_ ?_ ?_ start
  · intro world ⟨stored, found, spec, same⟩
    rw [← same] at within credited
    exact sync_recorded leased own (decodes resource) found (spec ▸ set) positive within credited limit _
  · intro world ⟨stored, found, spec, same⟩
    have kept := away world
    have spec' := specs world
    rw [found, Option.map_some, Option.map_eq_some_iff] at kept spec'
    obtain ⟨later, there, kept⟩ := kept
    obtain ⟨later', there', spec'⟩ := spec'
    obtain rfl := Option.some.inj (there.symm.trans there')
    exact ⟨later, there, spec'.trans spec, kept.trans same⟩
  · intro world ⟨stored, amount, found, recorded, positive, inForce⟩
    have kept := away world
    rw [found, Option.map_some, Option.map_eq_some_iff] at kept
    obtain ⟨later, there, kept⟩ := kept
    refine ⟨later, amount, there, kept ▸ recorded, positive, ?_⟩
    rw [s.syncedHalf_limit]
    exact inForce

/-- The quota has another name, and the namespace has no quota of its own name. -/
theorem call_unrecorded (found : world.quota quota.ns quota.name = some quota) (missing : world.quota quota.ns quota.ns = none) :
    let after := (Flow.exec s smooth (s.syncFromQuota quota) world).2
    after.quota quota.ns quota.name = some quota ∧ (after.nodes s.nodeID).limit resource quota.ns = some limit.toUInt64 := by
  let begun (world : Cluster) : Prop := world.quota quota.ns quota.ns = none ∧ world.quota quota.ns quota.name = some quota
  have same (resource : Resource) (limit : Option Int64) {world : Cluster} (missing : world.quota quota.ns quota.ns = none) :
      SameQuotas world (s.syncedHalf resource quota limit world) := by
    apply s.syncedHalf_lost
    rw [decodes resource]
    exact missing
  have start : begun world := ⟨missing, found⟩
  have ended : begun (Flow.exec s smooth (s.syncFromQuota quota) world).2 ∧
      ((Flow.exec s smooth (s.syncFromQuota quota) world).2.nodes s.nodeID).limit resource quota.ns = some limit.toUInt64 := by
    refine @Syncer.syncFromQuota_rule s quota resource limit set begun
      (fun world => begun world ∧ (world.nodes s.nodeID).limit resource quota.ns = some limit.toUInt64) ?_ ?_ ?_ world start
    · intro world ⟨missing, found⟩
      refine ⟨⟨?_, ?_⟩, ?_⟩
      · rw [(same resource (some limit) missing).quota, missing]
      · rw [(same resource (some limit) missing).quota, found]
      · have lost : world.quota (isProcSuffix (Syncer.leaseKey resource quota.ns)).1
            (isProcSuffix (Syncer.leaseKey resource quota.ns)).1 = none := by
          rw [decodes resource]
          exact missing
        obtain ⟨limits, _⟩ := s.sync_limits resource quota.ns limit (some (quota.spec.leaseBatchSize.getD 0)) world
        rw [s.effectiveLimit_lost _ _ _ _ _ lost] at limits
        exact (limits resource).trans (if_pos rfl)
    · intro world ⟨missing, found⟩
      exact ⟨((same _ _ missing).quota _ _).trans missing, ((same _ _ missing).quota _ _).trans found⟩
    · intro world ⟨⟨missing, found⟩, inForce⟩
      refine ⟨⟨((same _ _ missing).quota _ _).trans missing, ((same _ _ missing).quota _ _).trans found⟩, ?_⟩
      rw [s.syncedHalf_limit]
      exact inForce
  exact ⟨ended.1.2, ended.2⟩

end call

/-- The limit in force is the recorded credit exactly when the quota carries the name of
its namespace, or its whole limit happens to be recorded for the node already. The credits
may have been shared out under another limit than the one of the quota. -/
theorem recorded_iff {s : Syncer} {m : K8sLeaseManager} {quota : ObjectQuota} {resource : Resource} {limit : Int64}
    {old : Option Int64} {world : Cluster} (leased : s.leaser = some m) (own : s.nodeID = m.nodeID) (named : quota.ns ≠ "")
    (plain : ¬ ∃ base, quota.ns = base ++ "-proc") (only : Only world quota) (set : quota.spec.limit resource = some limit)
    (positive : 1 ≤ limit.toInt) (within : Within old (quota.status.allocations resource))
    (credited : s.nodeID ∈ quota.status.allocations resource ∨ credits (quota.status.allocations resource) < limit.toInt) :
    Recorded resource quota.ns quota.name s.nodeID (Flow.exec s smooth (s.syncFromQuota quota) world).2 ↔
      quota.name = quota.ns ∨ (quota.status.allocations resource).lookup s.nodeID = some limit := by
  have decodes (resource : Resource) : Decodes (Syncer.leaseKey resource quota.ns) resource quota.ns := by
    cases resource with
    | fd => exact decodes_fd plain
    | proc => exact decodes_proc named
  by_cases carries : quota.name = quota.ns
  · have found := only.stored
    rw [carries] at found ⊢
    have recorded := call_recorded decodes set leased own found positive within credited
    exact ⟨fun _ => .inl rfl, fun _ => recorded⟩
  · obtain ⟨stored, inForce⟩ := call_unrecorded (s := s) decodes set only.stored (only.alone quota.ns (Ne.symm carries))
    constructor
    · intro ⟨later, amount, found, recorded, _, limited⟩
      obtain rfl := Option.some.inj (stored.symm.trans found)
      have same : limit = amount := congrArg Int64.ofUInt64 (Option.some.inj (inForce.symm.trans limited))
      exact .inr (same ▸ recorded)
    · intro matching
      rcases matching with here | whole
      · exact absurd here carries
      · exact ⟨quota, limit, stored, whole, positive, inForce⟩

theorem only_empty (quota : ObjectQuota) : Only (.empty [quota]) quota := by
  refine ⟨by simp [Cluster.quota, Cluster.empty], ?_⟩
  intro name different
  simp [Cluster.quota, Cluster.empty, different.symm]

/-- The limit has been lowered to 50 under a credit of 100. -/
theorem recorded_team :
    let s : Syncer := ⟨"node", some (newK8sLeaseManager "node" 1000)⟩
    let quota : ObjectQuota := ⟨"team", "team", 0, ⟨some 50, none, none⟩, { ObjectQuotaStatus.empty with
      fdAllocations := AList.insert "node" 100 ∅ }⟩
    Recorded .fd "team" "team" "node" (Flow.exec s smooth (s.syncFromQuota quota) (.empty [quota])).2 := by
  intro s quota
  have plain : ¬ ∃ base, quota.ns = base ++ "-proc" := unmarked_of_last (by decide)
  have positive : 1 ≤ (50 : Int64).toInt := by decide
  have within : Within (some 100) (quota.status.allocations .fd) :=
    (Holdings.Within.empty (by decide)).grant (by decide) (by decide) (by decide)
  have holds : s.nodeID ∈ quota.status.allocations .fd := by decide
  exact (recorded_iff (s := s) rfl rfl (by decide) plain (only_empty quota) rfl positive within (.inl holds)).mpr (.inl rfl)

/-- A quota with a name of its own: the whole limit is enforced, nothing is recorded. -/
theorem own_name_unrecorded :
    let s : Syncer := ⟨"node", some (newK8sLeaseManager "node" 1000)⟩
    let quota : ObjectQuota := ⟨"my-namespace", "my-quota", 0, ⟨some 1000, some 200, none⟩, .empty⟩
    let after := (Flow.exec s smooth (s.syncFromQuota quota) (.empty [quota])).2
    (after.nodes "node").limit .fd "my-namespace" = some 1000 ∧
      (after.quota "my-namespace" "my-quota").map (·.status.fdAllocations.lookup "node") = some none ∧
      ¬ Recorded .fd "my-namespace" "my-quota" "node" after := by
  intro s quota after
  have nothing : (after.quota "my-namespace" "my-quota").map (·.status.fdAllocations.lookup "node") = some none := by
    decide +kernel
  refine ⟨by decide +kernel, nothing, ?_⟩
  intro ⟨stored, amount, found, recorded, _⟩
  rw [found, Option.map_some] at nothing
  exact nomatch (Option.some.inj nothing).symm.trans recorded

end QuotaManager
