import QuotaManager.Proofs.LeaseKeys
import QuotaManager.Proofs.SpecConvergence

/-! One pool of credits through a sync that runs alone. The node keeps the credits that
it holds, draws new ones while the pool has some, and else falls back to the limit; the
pool may have been shared out under another limit than the one that is in force now. -/

namespace QuotaManager
open Enforcer Holdings

/-- What a node draws from a pool under a limit, and the pool afterwards. -/
inductive Draws (limit : Int64) (nodeID : String) (before : Allocations) : Int64 → Allocations → Prop where
  | held {existing : Int64} (found : before.lookup nodeID = some existing) (positive : 1 ≤ existing.toInt) :
    Draws limit nodeID before existing before
  | exhausted (fresh : nodeID ∉ before) (full : limit.toInt ≤ credits before) : Draws limit nodeID before 0 before
  | granted {grant : Int64} (fresh : nodeID ∉ before) (positive : 1 ≤ grant.toInt)
    (room : grant.toInt ≤ limit.toInt - credits before) : Draws limit nodeID before grant (before.insert nodeID grant)

namespace Draws
variable {limit drawn : Int64} {nodeID : String} {before after : Allocations}

theorem recorded (draws : Draws limit nodeID before drawn after) (some_drawn : drawn ≠ 0) :
    after.lookup nodeID = some drawn ∧ 1 ≤ drawn.toInt := by
  cases draws with
  | held found positive => exact ⟨found, positive⟩
  | exhausted => exact absurd rfl some_drawn
  | granted fresh positive room => exact ⟨AList.lookup_insert .., positive⟩

theorem unchanged (draws : Draws limit nodeID before drawn after) (full : limit.toInt ≤ credits before) : after = before := by
  cases draws with
  | held | exhausted => rfl
  | granted fresh positive room => omega

theorem within (draws : Draws limit nodeID before drawn after) (kept : Within (some limit) before) :
    Within (some limit) after := by
  cases draws with
  | held | exhausted => exact kept
  | granted fresh positive room => exact kept.grant fresh positive room

theorem bounded (draws : Draws limit nodeID before drawn after) (kept : Within (some limit) before) : drawn.toInt ≤ limit.toInt := by
  have nonneg := kept.total_nonneg
  have bound := kept.bounded
  rw [Option.getD_some] at bound
  cases draws with
  | held found positive =>
    have parts := total_erase Int64.toInt before nodeID
    have others := (kept.erase nodeID).total_nonneg
    simp only [Holdings.held, found, Option.elim_some] at parts
    omega
  | exhausted => rw [Int64.toInt_zero]; omega
  | granted fresh positive room =>
    unfold credits at room
    omega

end Draws

namespace K8sLeaseManager
variable (m : K8sLeaseManager) {old : Option Int64} {limit : Int64} {allocations : Allocations}

/-- A pool that is shared out under an old limit gives nothing when the limit in force is used up. -/
theorem grant_full (within : Within old allocations) (nonneg : 0 ≤ limit.toInt) (full : limit.toInt ≤ credits allocations)
    (nodeID : String) (requested : Int64) : (m.grant allocations (some limit) nodeID requested).value = none := by
  obtain ⟨_, sum⟩ := within.sum_exact
  have bound := within.bounded
  have fits := (old.getD 0).toInt_lt
  have top := limit.toInt_lt
  unfold credits at sum full
  have left := Words.toInt_sub_of_fits (a := limit) (b := (Checked.sum (amounts allocations)).value) (by omega) (by omega)
  have exhausted : limit - (Checked.sum (amounts allocations)).value ≤ 0 := by
    rw [Int64.le_iff_toInt_le, left, Int64.toInt_zero]
    omega
  simp only [grant, Checked.bind_value, Checked.sub_value, Option.getD_some, exhausted, ↓reduceIte, Checked.pure_value]

theorem grant_fresh (within : Within old allocations) (nonneg : 0 ≤ limit.toInt) {nodeID : String} (fresh : nodeID ∉ allocations)
    (requested : Int64) :
    (m.grant allocations (some limit) nodeID requested).value = none ∧ limit.toInt ≤ credits allocations ∨
      ∃ granted grant, (m.grant allocations (some limit) nodeID requested).value = some granted ∧
        granted.allocations = allocations.insert nodeID grant ∧ 1 ≤ grant.toInt ∧
        grant.toInt ≤ limit.toInt - credits allocations := by
  by_cases full : limit.toInt ≤ credits allocations
  · exact .inl ⟨m.grant_full within nonneg full nodeID requested, full⟩
  · have kept : Within (some limit) allocations := ⟨within.positive, by unfold credits at full; exact Int.le_of_lt (Int.not_le.mp full)⟩
    rcases (m.grant_spec kept nodeID requested).2 with ⟨_, exhausted⟩ | ⟨granted, given, spec⟩
    · exact absurd exhausted full
    · refine .inr ⟨granted, granted.grant, given, ?_, spec.positive, spec.room⟩
      rw [spec.credited, AList.lookup_eq_none.mpr fresh, Option.getD_none, Int64.zero_add]

end K8sLeaseManager

section answer
variable {m : K8sLeaseManager} {resource : Resource} {quota : ObjectQuota} {requested limit : Int64} {world : Cluster}
  {ns : String} {old : Option Int64}

theorem Answers.draws {ended : Except LeaseError Int64 × Cluster} (answers : Answers m resource quota requested world ended)
    (found : world.quota ns ns = some quota) (set : quota.spec.limit resource = some limit) (nonneg : 0 ≤ limit.toInt)
    (within : Within old (quota.status.allocations resource)) :
    ∃ drawn later, ended.1 = .ok drawn ∧ ended.2.quota ns ns = some later ∧ later.spec = quota.spec ∧
      Draws limit m.nodeID (quota.status.allocations resource) drawn (later.status.allocations resource) := by
  unfold Answers at answers
  cases held : ((quota.status.allocations resource).lookup m.nodeID).filter (0 < ·) with
  | some existing =>
    rw [held] at answers
    obtain ⟨present, positive⟩ := Option.filter_eq_some_iff.mp held
    have positive := Int64.lt_iff_toInt_lt.mp (of_decide_eq_true positive)
    rw [Int64.toInt_zero] at positive
    exact ⟨existing, quota, answers.1, (answers.2.quota ns ns).trans found, rfl, .held present positive⟩
  | none =>
    rw [held] at answers
    have fresh := Ledger.fresh_notMem within held
    have missing := AList.lookup_eq_none.mpr fresh
    have shared := m.requested_allocations resource quota m.nodeID requested
    rw [set] at shared
    rcases m.grant_fresh within nonneg fresh requested with ⟨refused, full⟩ | ⟨granted, grant, given, inserted, positive, room⟩
    · rw [refused, Option.map_none, Option.map_eq_none_iff] at shared
      rw [shared, missing] at answers
      exact ⟨0, quota, answers.1, (answers.2.quota ns ns).trans found, rfl, .exhausted fresh full⟩
    · rw [given, Option.map_some, inserted, Option.map_eq_some_iff] at shared
      obtain ⟨status, computed, stored⟩ := shared
      rw [computed] at answers
      obtain ⟨sameNs, sameName⟩ := Cluster.quota_named found
      have replied : (status.allocations resource).lookup m.nodeID = some grant := by
        rw [stored]
        exact AList.lookup_insert ..
      simp only [replied] at answers
      refine ⟨grant, { quota with status, resourceVersion := world.revision + 1 }, answers.1, ?_, rfl, ?_⟩
      · rw [answers.2.quota ns ns, Cluster.quota_commitStatus, found]
        simp only [Option.map_some, sameNs, sameName, and_self, ↓reduceIte]
      · rw [stored]
        exact .granted fresh positive room

end answer

theorem Updates.specs {ns : String} {writer : Writer} {makes : ObjectQuota → ObjectQuotaStatus → Prop} {before after : Cluster}
    (updates : Updates ns writer makes before after) (key name : String) :
    (after.quota key name).map (·.spec) = (before.quota key name).map (·.spec) := by
  rcases updates with same | ⟨quota, status, _, _, written⟩
  · rw [same.quota]
  · rw [written.quota, Cluster.quota_commitStatus, Option.map_map]
    congr 1
    funext stored
    simp only [Function.comp_apply]
    split <;> rfl

theorem decodes_some (key : String) : ∃ resource, Decodes key resource (isProcSuffix key).1 := by
  cases proc : (isProcSuffix key).2 with
  | false => exact ⟨.fd, Prod.ext rfl proc⟩
  | true => exact ⟨.proc, Prod.ext rfl proc⟩

namespace Syncer
variable (s : Syncer) (resource : Resource) (ns : String) (limit : Int64) (batchSize : Option Int64) (world : Cluster)

theorem sync_specs (key name : String) :
    ((Action.exec s smooth (s.sync resource ns limit batchSize) world).2.quota key name).map (·.spec) =
      (world.quota key name).map (·.spec) := by
  rw [(exec_sync_quotas s smooth resource ns limit batchSize world).quota]
  cases leased : s.leaser with
  | none =>
    unfold effectiveLimit
    rw [leased]
    rfl
  | some leaser =>
    obtain ⟨pool, decodes⟩ := decodes_some (leaseKey resource ns)
    rw [exec_effectiveLimit leased]
    exact (exec_requestLease s smooth leaser decodes s.nodeID (batchSize.getD 0) world).specs key name

theorem sync_limits :
    let effective := (Action.exec s smooth (s.effectiveLimit resource ns limit batchSize) world).1
    let after := (Action.exec s smooth (s.sync resource ns limit batchSize) world).2
    (∀ other, (after.nodes s.nodeID).limit other ns =
      if other = resource then some effective.toUInt64 else (world.nodes s.nodeID).limit other ns) ∧
    ∀ node, node ≠ s.nodeID → after.nodes node = world.nodes node := by
  have asks := s.effectiveLimit_asks resource ns limit batchSize
  have off : OffNode world (Action.exec s smooth (s.effectiveLimit resource ns limit batchSize) world).2 := offNode_exec asks world
  have ended := s.sync_smooth resource ns limit batchSize world
  simp only at ended ⊢
  rw [ended]
  refine ⟨?_, ?_⟩
  · intro other
    simp only [Cluster.editNode_self, Node.synced_limit, off.nodes]
  · intro node different
    simp only [Cluster.editNode_other _ _ different, off.nodes]

/-- A node whose request finds no quota falls back to the limit. -/
theorem effectiveLimit_lost (lost : world.quota (isProcSuffix (leaseKey resource ns)).1 (isProcSuffix (leaseKey resource ns)).1 = none) :
    Action.exec s smooth (s.effectiveLimit resource ns limit batchSize) world = (limit, world) := by
  cases leased : s.leaser with
  | none =>
    unfold effectiveLimit
    rw [leased]
    rfl
  | some leaser =>
    rw [exec_effectiveLimit leased]
    by_cases own : s.nodeID = leaser.nodeID
    · obtain ⟨pool, decodes⟩ := decodes_some (leaseKey resource ns)
      have missing := smooth_requestLease s leaser decodes (batchSize.getD 0) world
      rw [lost] at missing
      rw [own, missing]
    · rw [leaser.requestLease_wrong own]

variable {resource ns} {quota : ObjectQuota} {pool : Int64} {old : Option Int64}

/-- A node whose request finds its quota draws from the pool, or falls back. -/
theorem effectiveLimit_draws {m : K8sLeaseManager} (leased : s.leaser = some m) (own : s.nodeID = m.nodeID)
    (decodes : Decodes (leaseKey resource ns) resource ns) (found : world.quota ns ns = some quota)
    (set : quota.spec.limit resource = some pool) (nonneg : 0 ≤ pool.toInt) (within : Within old (quota.status.allocations resource)) :
    let began := Action.exec s smooth (s.effectiveLimit resource ns limit batchSize) world
    ∃ drawn later, began.1 = (if drawn > 0 then drawn else limit) ∧ began.2.quota ns ns = some later ∧ later.spec = quota.spec ∧
      Draws pool s.nodeID (quota.status.allocations resource) drawn (later.status.allocations resource) := by
  have requests := smooth_requestLease s m decodes (batchSize.getD 0) world
  simp only [found] at requests
  obtain ⟨drawn, later, answered, stored, spec, draws⟩ := requests.draws found set nonneg within
  rw [exec_effectiveLimit leased, own]
  rw [answered]
  exact ⟨drawn, later, rfl, stored, spec, draws⟩

end Syncer

def Enforcer.Resource.other : Resource → Resource
  | .fd => .proc
  | .proc => .fd

theorem Enforcer.Resource.other_ne (resource : Resource) : resource.other ≠ resource := by
  cases resource <;> exact nofun

namespace Syncer
variable {s : Syncer} {quota : ObjectQuota} {resource : Resource} {limit : Int64}

/-- `SyncFromQuota` for a resource that the spec sets: its own half brings the goal about,
the other one may come first or last. -/
theorem syncFromQuota_rule (set : quota.spec.limit resource = some limit) {before after : Cluster → Prop}
    (own : ∀ world, before world → after (s.syncedHalf resource quota (some limit) world))
    (first : ∀ world, before world → before (s.syncedHalf resource.other quota (quota.spec.limit resource.other) world))
    (last : ∀ world, after world → after (s.syncedHalf resource.other quota (quota.spec.limit resource.other) world))
    {world : Cluster} (start : before world) : after (Flow.exec s smooth (s.syncFromQuota quota) world).2 := by
  rw [s.syncFromQuota_smooth]
  cases resource with
  | fd =>
    simp only [ObjectQuotaSpec.limit] at set
    simp only [set, reduceCtorEq, false_and, ↓reduceIte]
    exact last _ (own _ start)
  | proc =>
    simp only [ObjectQuotaSpec.limit] at set
    simp only [set, reduceCtorEq, and_false, ↓reduceIte]
    exact own _ (first _ start)

theorem syncedHalf_limit (s : Syncer) (quota : ObjectQuota) (resource : Resource) (limit : Option Int64) (world : Cluster)
    (node : String) :
    ((s.syncedHalf resource.other quota limit world).nodes node).limit resource quota.ns =
      (world.nodes node).limit resource quota.ns := by
  cases limit with
  | none => rfl
  | some limit =>
    obtain ⟨own, others⟩ := s.sync_limits resource.other quota.ns limit (some (quota.spec.leaseBatchSize.getD 0)) world
    by_cases here : node = s.nodeID
    · rw [here]
      exact (own resource).trans (if_neg resource.other_ne.symm)
    · exact congrArg (Node.limit · resource quota.ns) (others node here)

theorem syncedHalf_specs (s : Syncer) (quota : ObjectQuota) (resource : Resource) (limit : Option Int64) (world : Cluster)
    (key name : String) :
    ((s.syncedHalf resource quota limit world).quota key name).map (·.spec) = (world.quota key name).map (·.spec) := by
  cases limit with
  | none => rfl
  | some limit => exact s.sync_specs resource quota.ns limit (some (quota.spec.leaseBatchSize.getD 0)) world key name

theorem syncedHalf_outside (s : Syncer) (quota : ObjectQuota) {resource : Resource} (limit : Option Int64) (world : Cluster)
    (decodes : Decodes (leaseKey resource quota.ns) resource quota.ns) :
    Outside resource quota.ns world (s.syncedHalf resource quota limit world) := by
  cases limit with
  | none => exact .of_same (.refl world)
  | some limit => exact exec_sync_updates s smooth decodes limit (some (quota.spec.leaseBatchSize.getD 0)) world

theorem syncedHalf_lost (s : Syncer) (quota : ObjectQuota) (resource : Resource) (limit : Option Int64) (world : Cluster)
    (lost : world.quota (isProcSuffix (leaseKey resource quota.ns)).1 (isProcSuffix (leaseKey resource quota.ns)).1 = none) :
    SameQuotas world (s.syncedHalf resource quota limit world) := by
  cases limit with
  | none => exact .refl world
  | some limit =>
    have same := exec_sync_quotas s smooth resource quota.ns limit (some (quota.spec.leaseBatchSize.getD 0)) world
    rw [effectiveLimit_lost _ _ _ _ _ _ lost] at same
    exact same

end Syncer
end QuotaManager
