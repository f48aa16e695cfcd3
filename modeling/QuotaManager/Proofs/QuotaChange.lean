import QuotaManager.Proofs.CreditPool

/-! A changed limit. A node that holds credits keeps them whatever the new limit is, and
an overdrawn pool is not shared out any further; so after all nodes have synced the new
limit is in force exactly when the old credits fit under it. -/

namespace QuotaManager
open Enforcer Holdings

/-- The nodes sync one after the other from a quota. -/
def syncAll (quota : ObjectQuota) (syncers : List Syncer) (world : Cluster) : Cluster :=
  syncers.foldl (fun world s => (Flow.exec s smooth (s.syncFromQuota quota) world).2) world

/-- No node enforces more than the limit, and no more than the limit is recorded as shared out. -/
structure TakesEffect (resource : Resource) (ns : String) (limit : Int64) (world : Cluster) : Prop where
  limits : ∀ node stored, (world.nodes node).limit resource ns = some stored → stored ≤ limit.toUInt64
  shares : ∀ quota, world.quota ns ns = some quota → credits (quota.status.allocations resource) ≤ limit.toInt

/-- The lease key of the resource stands for its own pool, or for no quota at all. -/
def OwnPool (resource : Resource) (ns : String) (world : Cluster) : Prop :=
  Decodes (Syncer.leaseKey resource ns) resource ns ∨
    world.quota (isProcSuffix (Syncer.leaseKey resource ns)).1 (isProcSuffix (Syncer.leaseKey resource ns)).1 = none

/-- No lease key of one resource stands for the same namespace's pool of the other. -/
theorem decodes_other (resource : Resource) (ns : String) : ¬ Decodes (Syncer.leaseKey resource.other ns) resource ns := by
  intro decodes
  cases resource with
  | fd =>
    have same := isProcSuffix_false (congrArg Prod.snd decodes)
    exact append_marker_ne ns (same.symm.trans (congrArg Prod.fst decodes))
  | proc =>
    have split := (isProcSuffix_split (congrArg Prod.snd decodes)).2
    rw [show (isProcSuffix (Syncer.leaseKey Resource.proc.other ns)).1 = ns from congrArg Prod.fst decodes] at split
    exact append_marker_ne ns split.symm

section half
variable {s : Syncer} {quota stored : ObjectQuota} {resource : Resource} {limit : Int64} {old : Option Int64} {world : Cluster}

theorem syncedHalf_away (s : Syncer) (quota : ObjectQuota) {half : Resource} (limit : Option Int64)
    (away : ¬ Decodes (Syncer.leaseKey half quota.ns) resource quota.ns) (found : world.quota quota.ns quota.ns = some stored) :
    ∃ later, (s.syncedHalf half quota limit world).quota quota.ns quota.ns = some later ∧ later.spec = stored.spec ∧
      later.status.allocations resource = stored.status.allocations resource := by
  have spec := s.syncedHalf_specs quota half limit world quota.ns quota.ns
  have kept : ((s.syncedHalf half quota limit world).quota quota.ns quota.ns).map (·.status.allocations resource) =
      (world.quota quota.ns quota.ns).map (·.status.allocations resource) := by
    obtain ⟨pool, decodes⟩ := decodes_some (Syncer.leaseKey half quota.ns)
    cases limit with
    | none => rfl
    | some limit =>
      apply exec_sync_updates s smooth decodes limit (some (quota.spec.leaseBatchSize.getD 0)) world
      intro ⟨sameResource, sameNs⟩
      apply away
      have kind : (isProcSuffix (Syncer.leaseKey half quota.ns)).2 = decide (pool = .proc) := congrArg Prod.snd decodes
      rw [sameResource]
      exact Prod.ext sameNs.symm kind
  rw [found, Option.map_some, Option.map_eq_some_iff] at kept spec
  obtain ⟨later, there, kept⟩ := kept
  obtain ⟨later', there', spec⟩ := spec
  obtain rfl := Option.some.inj (there.symm.trans there')
  exact ⟨later, there, spec, kept⟩

theorem syncedHalf_pool (s : Syncer) (found : world.quota quota.ns quota.ns = some stored)
    (set : stored.spec.limit resource = some limit) (nonneg : 0 ≤ limit.toInt)
    (within : Within old (stored.status.allocations resource)) :
    ∃ later, (s.syncedHalf resource quota (some limit) world).quota quota.ns quota.ns = some later ∧ later.spec = stored.spec ∧
      (later.status.allocations resource = stored.status.allocations resource ∨
        ∃ drawn, Draws limit s.nodeID (stored.status.allocations resource) drawn (later.status.allocations resource)) := by
  by_cases decodes : Decodes (Syncer.leaseKey resource quota.ns) resource quota.ns
  · have same := exec_sync_quotas s smooth resource quota.ns limit (some (quota.spec.leaseBatchSize.getD 0)) world
    change ∃ later, Cluster.quota (Action.exec s smooth (s.sync resource quota.ns limit _) world).2 _ _ = some later ∧ _
    rw [same.quota]
    cases leased : s.leaser with
    | none =>
      unfold Syncer.effectiveLimit
      rw [leased]
      exact ⟨stored, found, rfl, .inl rfl⟩
    | some m =>
      by_cases own : s.nodeID = m.nodeID
      · obtain ⟨drawn, later, _, there, spec, draws⟩ := s.effectiveLimit_draws limit (some (quota.spec.leaseBatchSize.getD 0))
          world leased own decodes found set nonneg within
        exact ⟨later, there, spec, .inr ⟨drawn, draws⟩⟩
      · rw [Syncer.exec_effectiveLimit leased, m.requestLease_wrong own]
        exact ⟨stored, found, rfl, .inl rfl⟩
  · obtain ⟨later, there, spec, kept⟩ := syncedHalf_away s quota (some limit) decodes found
    exact ⟨later, there, spec, .inl kept⟩

theorem syncedHalf_bounded (s : Syncer) (found : world.quota quota.ns quota.ns = some stored)
    (set : stored.spec.limit resource = some limit) (within : Within (some limit) (stored.status.allocations resource))
    (pooled : OwnPool resource quota.ns world) {amount : UInt64}
    (inForce : ((s.syncedHalf resource quota (some limit) world).nodes s.nodeID).limit resource quota.ns = some amount) :
    amount ≤ limit.toUInt64 := by
  obtain ⟨limits, _⟩ := s.sync_limits resource quota.ns limit (some (quota.spec.leaseBatchSize.getD 0)) world
  have written := (limits resource).symm.trans inForce
  rw [if_pos rfl, Option.some_inj] at written
  rw [← written]
  have fallback : Action.exec s smooth (s.effectiveLimit resource quota.ns limit (some (quota.spec.leaseBatchSize.getD 0))) world =
      (limit, world) → (Action.exec s smooth (s.effectiveLimit resource quota.ns limit
        (some (quota.spec.leaseBatchSize.getD 0))) world).1.toUInt64 ≤ limit.toUInt64 := by
    intro same
    rw [same]
    exact UInt64.le_refl _
  rcases pooled with decodes | lost
  · cases leased : s.leaser with
    | none =>
      apply fallback
      unfold Syncer.effectiveLimit
      rw [leased]
      rfl
    | some m =>
      by_cases own : s.nodeID = m.nodeID
      · have nonneg := within.total_nonneg
        have bound := within.bounded
        rw [Option.getD_some] at bound
        obtain ⟨drawn, later, effective, _, _, draws⟩ := s.effectiveLimit_draws limit
          (some (quota.spec.leaseBatchSize.getD 0)) world leased own decodes found set (by omega) within
        rw [effective]
        split
        next more =>
          have fits := draws.bounded within
          have positive := Int64.lt_iff_toInt_lt.mp more
          rw [UInt64.le_iff_toNat_le]
          have left := Words.toNat_toUInt64 (Int64.le_of_lt more)
          have right := Words.toNat_toUInt64 (a := limit) (by rw [Int64.le_iff_toInt_le, Int64.toInt_zero]; omega)
          omega
        · exact UInt64.le_refl _
      · apply fallback
        rw [Syncer.exec_effectiveLimit leased, m.requestLease_wrong own]
  · exact fallback (s.effectiveLimit_lost _ _ _ _ _ lost)

end half

section run
variable {quota : ObjectQuota} {resource : Resource} {limit : Int64} (set : quota.spec.limit resource = some limit)
include set

theorem syncAll_full (syncers : List Syncer) {old : Option Int64} {shared : Allocations} (nonneg : 0 ≤ limit.toInt)
    (within : Within old shared) (full : limit.toInt ≤ credits shared) {world : Cluster} {stored : ObjectQuota}
    (found : world.quota quota.ns quota.ns = some stored) (spec : stored.spec = quota.spec)
    (same : stored.status.allocations resource = shared) :
    ∃ later, (syncAll quota syncers world).quota quota.ns quota.ns = some later ∧
      later.status.allocations resource = shared := by
  let kept (world : Cluster) : Prop := ∃ stored, world.quota quota.ns quota.ns = some stored ∧ stored.spec = quota.spec ∧
    stored.status.allocations resource = shared
  have start : kept world := ⟨stored, found, spec, same⟩
  suffices ended : kept (syncAll quota syncers world) by
    obtain ⟨later, there, _, same⟩ := ended
    exact ⟨later, there, same⟩
  clear found spec same
  induction syncers generalizing world with
  | nil => exact start
  | cons s rest ih =>
    have away (world : Cluster) (before : kept world) :
        kept (s.syncedHalf resource.other quota (quota.spec.limit resource.other) world) := by
      obtain ⟨stored, found, spec, same⟩ := before
      obtain ⟨later, there, spec', same'⟩ :=
        syncedHalf_away s quota (quota.spec.limit resource.other) (decodes_other resource quota.ns) found
      exact ⟨later, there, spec'.trans spec, same'.trans same⟩
    apply ih
    refine Syncer.syncFromQuota_rule set ?_ away away start
    intro world ⟨stored, found, spec, same⟩
    rw [← same] at within full
    obtain ⟨later, there, spec', unchanged | ⟨drawn, draws⟩⟩ := syncedHalf_pool s found (spec ▸ set) nonneg within
    · exact ⟨later, there, spec'.trans spec, unchanged.trans same⟩
    · exact ⟨later, there, spec'.trans spec, (draws.unchanged full).trans same⟩

/-- The credits fit under the limit, and no node exceeds it but those that have still to sync. -/
structure Settling (quota : ObjectQuota) (resource : Resource) (limit : Int64) (pending : List Syncer) (world : Cluster) : Prop where
  stored : ∃ stored, world.quota quota.ns quota.ns = some stored ∧ stored.spec = quota.spec ∧
    Within (some limit) (stored.status.allocations resource)
  pooled : OwnPool resource quota.ns world
  limits : ∀ node amount, (world.nodes node).limit resource quota.ns = some amount →
    amount ≤ limit.toUInt64 ∨ ∃ s ∈ pending, s.nodeID = node

omit set in
theorem OwnPool.half {world : Cluster} (pooled : OwnPool resource quota.ns world) (s : Syncer) {half : Resource}
    {amount : Option Int64} : OwnPool resource quota.ns (s.syncedHalf half quota amount world) := by
  rcases pooled with decodes | lost
  · exact .inl decodes
  · have spec := s.syncedHalf_specs quota half amount world (isProcSuffix (Syncer.leaseKey resource quota.ns)).1
      (isProcSuffix (Syncer.leaseKey resource quota.ns)).1
    rw [lost, Option.map_none, Option.map_eq_none_iff] at spec
    exact .inr spec

theorem Settling.step {s : Syncer} {rest : List Syncer} {world : Cluster} (settling : Settling quota resource limit (s :: rest) world) :
    Settling quota resource limit rest (Flow.exec s smooth (s.syncFromQuota quota) world).2 := by
  have away (pending : List Syncer) (world : Cluster) (before : Settling quota resource limit pending world) :
      Settling quota resource limit pending (s.syncedHalf resource.other quota (quota.spec.limit resource.other) world) := by
    obtain ⟨stored, found, spec, within⟩ := before.stored
    obtain ⟨later, there, spec', same⟩ :=
      syncedHalf_away s quota (quota.spec.limit resource.other) (decodes_other resource quota.ns) found
    refine ⟨⟨later, there, spec'.trans spec, same ▸ within⟩, before.pooled.half s, ?_⟩
    intro node amount inForce
    rw [s.syncedHalf_limit] at inForce
    exact before.limits node amount inForce
  refine Syncer.syncFromQuota_rule set ?_ (away (s :: rest)) (away rest) settling
  intro world before
  obtain ⟨stored, found, spec, within⟩ := before.stored
  have nonneg : 0 ≤ limit.toInt := Int.le_trans within.total_nonneg within.bounded
  refine ⟨?_, before.pooled.half s, ?_⟩
  · obtain ⟨later, there, spec', unchanged | ⟨drawn, draws⟩⟩ := syncedHalf_pool s found (spec ▸ set) nonneg within
    · exact ⟨later, there, spec'.trans spec, unchanged ▸ within⟩
    · exact ⟨later, there, spec'.trans spec, draws.within within⟩
  · intro node amount inForce
    by_cases here : node = s.nodeID
    · rw [here] at inForce
      exact .inl (syncedHalf_bounded s found (spec ▸ set) within before.pooled inForce)
    · obtain ⟨_, others⟩ := s.sync_limits resource quota.ns limit (some (quota.spec.leaseBatchSize.getD 0)) world
      have unchanged : (s.syncedHalf resource quota (some limit) world).nodes node = world.nodes node := others node here
      rw [unchanged] at inForce
      rcases before.limits node amount inForce with fits | ⟨other, member, owner⟩
      · exact .inl fits
      · rcases List.mem_cons.mp member with rfl | later
        · exact absurd owner.symm here
        · exact .inr ⟨other, later, owner⟩

theorem syncAll_settles (syncers : List Syncer) {world : Cluster} (settling : Settling quota resource limit syncers world) :
    Settling quota resource limit [] (syncAll quota syncers world) := by
  induction syncers generalizing world with
  | nil => exact settling
  | cons s rest ih => exact ih (Settling.step set settling)

/-- A changed limit takes effect exactly when the credits that are shared out already fit
under it. Where the lease key stands for somebody else's pool they still have to fit. -/
theorem quota_change_iff {old : Int64} {world : Cluster} (found : world.quota quota.ns quota.ns = some quota)
    (positive : 1 ≤ limit.toInt) (within : Within (some old) (quota.status.allocations resource)) (syncers : List Syncer)
    (covered : ∀ node, (world.nodes node).limit resource quota.ns ≠ none → ∃ s ∈ syncers, s.nodeID = node) :
    (OwnPool resource quota.ns world → (TakesEffect resource quota.ns limit (syncAll quota syncers world) ↔
      credits (quota.status.allocations resource) ≤ limit.toInt)) ∧
    (TakesEffect resource quota.ns limit (syncAll quota syncers world) →
      credits (quota.status.allocations resource) ≤ limit.toInt) := by
  have necessary (effect : TakesEffect resource quota.ns limit (syncAll quota syncers world)) :
      credits (quota.status.allocations resource) ≤ limit.toInt := by
    by_contra overdrawn
    obtain ⟨later, there, same⟩ := syncAll_full set syncers (Int.le_of_lt positive) within
      (Int.le_of_lt (Int.not_le.mp overdrawn)) found rfl rfl
    have fits := effect.shares later there
    rw [same] at fits
    exact overdrawn fits
  refine ⟨fun pooled => ⟨necessary, fun fits => ?_⟩, necessary⟩
  have settling : Settling quota resource limit syncers world := by
    refine ⟨⟨quota, found, rfl, within.positive, fits⟩, pooled, ?_⟩
    intro node amount inForce
    apply Or.inr
    apply covered
    rw [inForce]
    exact nofun
  have settled := syncAll_settles set syncers settling
  obtain ⟨stored, there, _, shared⟩ := settled.stored
  constructor
  · intro node amount inForce
    rcases settled.limits node amount inForce with fits | ⟨s, impossible, _⟩
    · exact fits
    · exact absurd impossible List.not_mem_nil
  · intro other found
    obtain rfl := Option.some.inj (there.symm.trans found)
    exact shared.bounded

end run
/-- The limit is raised from 30 to 50 while one node holds all 30. -/
theorem raised_limit_effective :
    let status : ObjectQuotaStatus := { ObjectQuotaStatus.empty with fdAllocations := (∅ : Allocations).insert "a" 30 }
    let quota : ObjectQuota := ⟨"team", "team", 0, ⟨some 50, none, none⟩, status⟩
    let syncers : List Syncer := ["b", "a"].map fun node => ⟨node, some (newK8sLeaseManager node 1000)⟩
    TakesEffect .fd "team" 50 (syncAll quota syncers (.empty [quota])) := by
  intro status quota syncers
  have set : quota.spec.limit .fd = some 50 := rfl
  have found : (Cluster.empty [quota]).quota "team" "team" = some quota := by simp [Cluster.quota, Cluster.empty, quota]
  have within : Within (some 30) (quota.status.allocations .fd) :=
    (Holdings.Within.empty (by decide)).grant (by decide) (by decide) (by decide)
  have covered : ∀ node, ((Cluster.empty [quota]).nodes node).limit .fd "team" ≠ none → ∃ s ∈ syncers, s.nodeID = node :=
    fun node limited => absurd rfl limited
  have decodes : Decodes (Syncer.leaseKey .fd "team") .fd "team" := decodes_fd (unmarked_of_last (by decide))
  exact ((quota_change_iff set found (by decide) within syncers covered).1 (.inl decodes)).mpr (by decide)

/-- The limit is lowered from 100 to 50 while one node holds all 100. -/
theorem lowered_limit_ignored :
    let s : Syncer := ⟨"a", some (newK8sLeaseManager "a" 1000)⟩
    let quota : ObjectQuota := ⟨"team", "team", 0, ⟨some 100, none, none⟩, .empty⟩
    let first := syncAll quota [s] (.empty [quota])
    let lowered : ObjectQuotaSpec := ⟨some 50, none, none⟩
    let changed := { first with quotas := first.quotas.map fun stored => { stored with spec := lowered } }
    let after := syncAll { quota with spec := lowered } [s] changed
    (after.nodes "a").limit .fd "team" = some 100 ∧
      (after.quota "team" "team").map (credits ·.status.fdAllocations) = some 100 ∧
      ¬ TakesEffect .fd "team" 50 after := by
  intro s quota first lowered changed after
  have inForce : (after.nodes "a").limit .fd "team" = some 100 := by decide +kernel
  refine ⟨inForce, by decide +kernel, ?_⟩
  intro effect
  exact absurd (effect.limits "a" 100 inForce) (by decide)

end QuotaManager
