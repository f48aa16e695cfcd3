import QuotaManager.Proofs.RepeatedRequest
import QuotaManager.Proofs.RepeatedSync

/-! A `SyncFromQuota` that is run again. The first run leaves the pools settled, the
heartbeat written and the maps in sync, so the second one renews the heartbeat and
stops at that. -/

namespace QuotaManager
open Enforcer

namespace Syncer
variable (s : Syncer) (m : K8sLeaseManager)

/-- The limit that a sync goes on with, from what is stored after its request. -/
def share (limit : Int64) (pool : Option (ObjectQuotaSpec × Allocations)) : Int64 :=
  if s.nodeID = m.nodeID then
    pool.elim limit fun pool =>
      let granted := (pool.2.lookup m.nodeID).getD 0
      if granted > 0 then granted else limit
  else limit

/-- What the request of a half leaves of a pool. -/
def poolAfter (resource other : Resource) (amount : Int64) (pool : ObjectQuotaSpec × Allocations) :
    ObjectQuotaSpec × Allocations :=
  (pool.1, if s.nodeID = m.nodeID ∧ other = resource then m.regranted (pool.1.limit resource) pool.2 amount else pool.2)

theorem poolAfter_other {resource other : Resource} (different : other ≠ resource) (amount : Int64) :
    s.poolAfter m resource other amount = id := by
  funext pool
  unfold poolAfter
  rw [if_neg fun both => different both.2]
  rfl

/-- A half has asked for credits: where descriptors are leased the heartbeat is there. -/
def Beating (resource : Resource) (ns : String) (world : Cluster) : Prop :=
  resource = .fd → s.nodeID = m.nodeID → (world.pool .fd ns).isSome → world.Held ns (m.leaseName ns)

/-- The request of a half would be granted something. -/
def Pending (resource : Resource) (ns : String) (amount : Int64) (world : Cluster) : Prop :=
  s.nodeID = m.nodeID ∧ ∃ pool ∈ world.pool resource ns, m.Grants (pool.1.limit resource) pool.2 amount

end Syncer

section half
variable {s : Syncer} {m : K8sLeaseManager} (leased : s.leaser = some m) {resource : Resource} {ns : String}
  (decodes : Decodes (Syncer.leaseKey resource ns) resource ns) (limit amount : Int64) (world : Cluster)
include leased

theorem effectiveLimit_requests : Action.requests s smooth (s.effectiveLimit resource ns limit (some amount)) world =
    Action.requests s smooth (m.requestLease (Syncer.leaseKey resource ns) s.nodeID amount) world := by
  unfold Syncer.effectiveLimit Action.requests
  rw [leased]
  dsimp only
  rw [Program.requests_bind]
  split <;> exact List.append_nil _

include decodes

/-- The spec of the request of a half. -/
theorem effectiveLimit_pool :
    let began := Action.exec s smooth (s.effectiveLimit resource ns limit (some amount)) world
    began.1 = s.share m limit (began.2.pool resource ns) ∧
      ∀ other, began.2.pool other ns = (world.pool other ns).map (s.poolAfter m resource other amount) := by
  rw [Syncer.exec_effectiveLimit leased]
  unfold Syncer.share Syncer.poolAfter
  by_cases own : s.nodeID = m.nodeID
  · obtain ⟨pools, answer⟩ := smooth_requestLease_pool s m decodes amount world
    rw [own, Option.getD_some]
    refine ⟨?_, fun other => ?_⟩
    · rw [if_pos rfl, answer]
      cases (Action.exec s smooth (m.requestLease (Syncer.leaseKey resource ns) m.nodeID amount) world).2.pool resource ns <;> rfl
    · simp only [pools other, true_and]
  · rw [m.requestLease_wrong own]
    refine ⟨by rw [if_neg own], fun other => ?_⟩
    simp only [own, false_and, ↓reduceIte]
    exact (Option.map_id' ..).symm

/-- The heartbeat after the request of a half. -/
theorem effectiveLimit_beating :
    let began := Action.exec s smooth (s.effectiveLimit resource ns limit (some amount)) world
    s.Beating m resource ns began.2 ∧ (resource = .proc → began.2.leases = world.leases) := by
  rw [Syncer.exec_effectiveLimit leased]
  dsimp only
  by_cases own : s.nodeID = m.nodeID
  · rw [own, Option.getD_some]
    refine ⟨?_, ?_⟩
    · rintro rfl _ present
      apply requestLease_held decodes
      rw [(smooth_requestLease_pool s m decodes amount world).1] at present
      simpa using present
    · rintro rfl
      exact requestLease_leases decodes
  · rw [m.requestLease_wrong own]
    exact ⟨fun _ here => absurd here own, fun _ => rfl⟩

/-- A half whose request is not pending and whose heartbeat is there asks for nothing new. -/
theorem effectiveLimit_again (settled : ¬ s.Pending m resource ns amount world) (beating : s.Beating m resource ns world) :
    Rests world (Action.exec s smooth (s.effectiveLimit resource ns limit (some amount)) world).2 ∧
      ∀ request ∈ Action.requests s smooth (s.effectiveLimit resource ns limit (some amount)) world,
        request.writesStatus = false := by
  rw [Syncer.exec_effectiveLimit leased, effectiveLimit_requests leased]
  dsimp only
  by_cases own : s.nodeID = m.nodeID
  · rw [own, Option.getD_some]
    apply requestLease_again decodes
    · intro pool found grants
      exact settled ⟨own, pool, found, grants⟩
    · rintro rfl present
      exact beating rfl own present
  · rw [m.requestLease_wrong own]
    refine ⟨.refl world, ?_⟩
    unfold K8sLeaseManager.requestLease Action.requests
    dsimp only
    rw [if_pos own]
    exact fun _ impossible => absurd impossible List.not_mem_nil

theorem effectiveLimit_writes (pending : s.Pending m resource ns amount world) :
    ∃ request ∈ Action.requests s smooth (s.effectiveLimit resource ns limit (some amount)) world,
      request.writesStatus = true := by
  obtain ⟨own, pool, found, grants⟩ := pending
  rw [effectiveLimit_requests leased, own]
  exact requestLease_writes decodes found grants

end half

section sync
variable (s : Syncer) (resource : Resource) (ns : String) (limit : Int64) (batchSize : Option Int64) (world : Cluster)

/-- All updates of a status come from the request for credits. -/
theorem sync_requests : ∃ rest, Action.requests s smooth (s.sync resource ns limit batchSize) world =
    Action.requests s smooth (s.effectiveLimit resource ns limit batchSize) world ++ rest ∧
      ∀ request ∈ rest, request.writesStatus = false := by
  obtain ⟨tail, split, asks⟩ := sync_splits s resource ns limit batchSize
  rw [split]
  refine ⟨_, Program.requests_bind .., fun request member => ?_⟩
  exact ((asks _).requests request member).reads

end sync

/-- Where a half has run: the maps are in sync with what is stored, and the heartbeat is there. -/
structure Syncer.Done (s : Syncer) (m : K8sLeaseManager) (resource : Resource) (quota : ObjectQuota) (limit : Option Int64)
    (world : Cluster) : Prop where
  inSync : ∀ value, limit = some value → (world.nodes s.nodeID).InSync resource quota.ns
    (s.share m value (world.pool resource quota.ns)) (world.pods quota.ns)
  beating : limit ≠ none → s.Beating m resource quota.ns world

section Rests
variable {s : Syncer} {m : K8sLeaseManager} {resource : Resource} {quota : ObjectQuota} {limit : Option Int64}
  {before middle after : Cluster}

theorem Rests.trans (first : Rests before middle) (second : Rests middle after) : Rests before after :=
  ⟨first.quotas.trans second.quotas, first.off.trans second.off, second.beats.trans first.beats⟩

theorem Rests.later (world : Cluster) (now : Int) : Rests world { world with now } := ⟨⟨rfl, rfl, Nat.le_refl _⟩, ⟨rfl, rfl⟩, rfl⟩

theorem Rests.done (rests : Rests before after) (done : s.Done m resource quota limit before) :
    s.Done m resource quota limit after := by
  refine ⟨fun value set => ?_, fun set leasing own present => ?_⟩
  · rw [rests.off.nodes, rests.off.pods, rests.quotas.pool]
    exact done.inSync value set
  · rw [rests.quotas.pool] at present
    exact (done.beating set leasing own present).congr rests.beats

theorem Rests.pending_iff (rests : Rests before after) {ns : String} {amount : Int64} :
    s.Pending m resource ns amount after ↔ s.Pending m resource ns amount before := by
  unfold Syncer.Pending
  rw [rests.quotas.pool]

end Rests

section syncedHalf
variable {s : Syncer} {m : K8sLeaseManager} (leased : s.leaser = some m) {resource other : Resource} {quota : ObjectQuota}
  (decodes : Decodes (Syncer.leaseKey resource quota.ns) resource quota.ns) (limit : Option Int64) (world : Cluster)
include leased decodes

theorem syncedHalf_poolAfter : (s.syncedHalf resource quota limit world).pool other quota.ns =
    if limit = none then world.pool other quota.ns
    else (world.pool other quota.ns).map (s.poolAfter m resource other (quota.spec.leaseBatchSize.getD 0)) := by
  cases limit with
  | none => rfl
  | some limit =>
    rw [if_neg (Option.some_ne_none limit)]
    have began := (effectiveLimit_pool leased decodes limit (quota.spec.leaseBatchSize.getD 0) world).2 other
    rw [← began]
    simp only [Syncer.syncedHalf]
    rw [s.sync_smooth]
    rfl

theorem syncedHalf_done : s.Done m resource quota limit (s.syncedHalf resource quota limit world) := by
  cases limit with
  | none => exact ⟨fun _ impossible => (nomatch impossible), fun set => absurd rfl set⟩
  | some limit =>
    obtain ⟨share, _⟩ := effectiveLimit_pool leased decodes limit (quota.spec.leaseBatchSize.getD 0) world
    have beating := (effectiveLimit_beating leased decodes limit (quota.spec.leaseBatchSize.getD 0) world).1
    simp only [Syncer.syncedHalf]
    rw [s.sync_smooth]
    refine ⟨fun value set => ?_, fun _ => beating⟩
    obtain rfl := Option.some.inj set
    rw [Cluster.editNode_self, share]
    exact Node.synced_inSync

/-- A half that has run before and has nothing pending. -/
theorem syncedHalf_again (done : s.Done m resource quota limit world)
    (settled : limit ≠ none → ¬ s.Pending m resource quota.ns (quota.spec.leaseBatchSize.getD 0) world) :
    Rests world (s.syncedHalf resource quota limit world) := by
  cases limit with
  | none => exact .refl world
  | some limit =>
    have set := Option.some_ne_none limit
    obtain ⟨rests, _⟩ := effectiveLimit_again leased decodes limit (quota.spec.leaseBatchSize.getD 0) world (settled set)
      (done.beating set)
    obtain ⟨share, _⟩ := effectiveLimit_pool leased decodes limit (quota.spec.leaseBatchSize.getD 0) world
    have inSync := (rests.done done).inSync limit rfl
    rw [← share] at inSync
    simp only [Syncer.syncedHalf]
    rw [s.sync_smooth]
    dsimp only
    rw [inSync.synced_eq]
    refine rests.trans ⟨⟨rfl, rfl, Nat.le_refl _⟩, ⟨?_, rfl⟩, rfl⟩
    exact Function.update_eq_self ..

end syncedHalf

/-- The half for processes keeps what the half for descriptors has done. -/
theorem syncedHalf_keeps {s : Syncer} {m : K8sLeaseManager} (leased : s.leaser = some m) {quota : ObjectQuota}
    (decodes : Decodes (Syncer.leaseKey .proc quota.ns) .proc quota.ns) {fdLimit : Option Int64} (limit : Option Int64)
    {world : Cluster} (done : s.Done m .fd quota fdLimit world) :
    s.Done m .fd quota fdLimit (s.syncedHalf .proc quota limit world) := by
  have pools : (s.syncedHalf .proc quota limit world).pool .fd quota.ns = world.pool .fd quota.ns := by
    rw [syncedHalf_poolAfter leased decodes]
    split
    · rfl
    · rw [s.poolAfter_other m (by decide), Option.map_id_apply]
  cases limit with
  | none => exact done
  | some limit =>
    have off : OffNode world (Action.exec s smooth (s.effectiveLimit .proc quota.ns limit
        (some (quota.spec.leaseBatchSize.getD 0))) world).2 := offNode_exec (s.effectiveLimit_asks _ _ _ _) world
    have leases := (effectiveLimit_beating leased decodes limit (quota.spec.leaseBatchSize.getD 0) world).2 rfl
    simp only [Syncer.syncedHalf] at pools ⊢
    rw [s.sync_smooth] at pools ⊢
    dsimp only at pools ⊢
    refine ⟨fun value set => ?_, fun set leasing own present => ?_⟩
    · rw [pools, Cluster.editNode_self, off.nodes]
      change Node.InSync _ _ _ _ ((Action.exec s smooth _ world).2.pods quota.ns)
      rw [off.pods]
      exact (done.inSync value set).synced_other (by decide)
    · rw [pools] at present
      apply (done.beating set leasing own present).congr
      exact congrArg (List.map Lease.identity) leases

section requests
variable (s : Syncer) {α β : Type}

theorem Flow.requests_lift (action : Action α) (world : Cluster) :
    Flow.requests s smooth action.lift world = (Action.requests s smooth action world).map .sync := by
  unfold Flow.requests Action.requests Action.lift
  apply Program.requests_translate
  intro world request
  exact ⟨rfl, rfl⟩

theorem Flow.requests_bind (flow : Flow α) (next : α → Flow β) (world : Cluster) :
    Flow.requests s smooth (flow >>= next) world = Flow.requests s smooth flow world ++
      Flow.requests s smooth (next (Flow.exec s smooth flow world).1) (Flow.exec s smooth flow world).2 :=
  Program.requests_bind ..

variable (resource : Resource) (quota : ObjectQuota) (limit : Option Int64) (world : Cluster)

def Syncer.halfRequests : List Request :=
  match limit with
  | none => []
  | some limit => Action.requests s smooth (s.sync resource quota.ns limit (some (quota.spec.leaseBatchSize.getD 0))) world

theorem whenSet_requests : Flow.requests s smooth (Syncer.whenSet limit fun limit =>
      s.sync resource quota.ns limit (some (quota.spec.leaseBatchSize.getD 0))) world =
    (s.halfRequests resource quota limit world).map .sync := by
  cases limit with
  | none => rfl
  | some limit => exact Flow.requests_lift s _ world

theorem syncFromQuota_requests : Flow.requests s smooth (s.syncFromQuota quota) world =
    (s.halfRequests .fd quota quota.spec.fileDescriptors world).map .sync ++
      ((s.halfRequests .proc quota quota.spec.processes (s.syncedHalf .fd quota quota.spec.fileDescriptors world)).map .sync ++
        if quota.spec.fileDescriptors = none ∧ quota.spec.processes = none then
          Flow.requests s smooth (s.removeNamespace quota.ns) world
        else []) := by
  have fd := s.whenSet_smooth .fd quota quota.spec.fileDescriptors
  have proc := s.whenSet_smooth .proc quota quota.spec.processes
  simp only [Syncer.syncFromQuota, Syncer.syncNamespace, Syncer.syncProcessNamespace, Flow.requests_bind, fd, proc,
    whenSet_requests]
  congr 2
  split
  next neither =>
    rw [neither.1, neither.2, Flow.requests_bind]
    exact List.append_nil _
  · rfl

end requests

section halves
variable {s : Syncer} {m : K8sLeaseManager} (leased : s.leaser = some m) {resource : Resource} {quota : ObjectQuota}
  (decodes : Decodes (Syncer.leaseKey resource quota.ns) resource quota.ns) {limit : Option Int64} {world : Cluster}
include leased decodes

/-- A half that has run before updates a status exactly when its request is pending. -/
theorem halfRequests_silent_iff (done : s.Done m resource quota limit world) :
    (∀ request ∈ s.halfRequests resource quota limit world, request.writesStatus = false) ↔
      (limit ≠ none → ¬ s.Pending m resource quota.ns (quota.spec.leaseBatchSize.getD 0) world) := by
  cases limit with
  | none => exact ⟨fun _ set => absurd rfl set, fun _ _ impossible => absurd impossible List.not_mem_nil⟩
  | some limit =>
    have set := Option.some_ne_none limit
    obtain ⟨rest, split, reads⟩ := sync_requests s resource quota.ns limit (some (quota.spec.leaseBatchSize.getD 0)) world
    unfold Syncer.halfRequests
    simp only [split]
    constructor
    · intro silent _ pending
      obtain ⟨request, asked, writes⟩ := effectiveLimit_writes leased decodes limit _ world pending
      rw [silent request (List.mem_append_left _ asked)] at writes
      cases writes
    · intro settled request member
      rcases List.mem_append.mp member with asked | later
      · exact (effectiveLimit_again leased decodes limit _ world (settled set) (done.beating set)).2 request asked
      · exact reads request later

/-- After a half its request is pending exactly when it was granted nothing. -/
theorem pending_half_iff (set : limit ≠ none)
    (healthy : ∀ pool ∈ world.pool resource quota.ns, (∀ entry ∈ pool.2.entries, 0 < entry.2) ∧ 0 ≤ (pool.1.limit resource).getD 0) :
    s.Pending m resource quota.ns (quota.spec.leaseBatchSize.getD 0) (s.syncedHalf resource quota limit world) ↔
      s.nodeID = m.nodeID ∧ ∃ pool ∈ world.pool resource quota.ns,
        m.Hollow (pool.1.limit resource) pool.2 (quota.spec.leaseBatchSize.getD 0) := by
  unfold Syncer.Pending
  rw [syncedHalf_poolAfter leased decodes, if_neg set]
  constructor
  · rintro ⟨own, _, found, grants⟩
    obtain ⟨pool, before, rfl⟩ := Option.map_eq_some_iff.mp found
    obtain ⟨positive, nonneg⟩ := healthy pool before
    simp only [Syncer.poolAfter, own, and_self, ↓reduceIte] at grants
    exact ⟨own, pool, before, (K8sLeaseManager.grants_regranted_iff positive nonneg).mp grants⟩
  · rintro ⟨own, pool, before, hollow⟩
    obtain ⟨positive, nonneg⟩ := healthy pool before
    refine ⟨own, _, Option.map_eq_some_iff.mpr ⟨pool, before, rfl⟩, ?_⟩
    simp only [Syncer.poolAfter, own, and_self, ↓reduceIte]
    exact (K8sLeaseManager.grants_regranted_iff positive nonneg).mpr hollow

end halves

section release
variable (s : Syncer) (m : K8sLeaseManager) {resource : Resource} {key ns : String} (decodes : Decodes key resource ns)
  (nodeID : String) (world : Cluster)
include decodes

/-- The node has no entry left. -/
def Cluster.Absent (world : Cluster) (resource : Resource) (ns nodeID : String) : Prop :=
  ∀ pool ∈ world.pool resource ns, pool.2.lookup nodeID = none

theorem releaseLease_absent :
    let later := (Action.exec s smooth (m.releaseLease key nodeID) world).2
    later.Absent resource ns nodeID ∧ ∀ other ≠ resource, later.pool other ns = world.pool other ns := by
  have spec := smooth_releaseLease s m decodes nodeID world
  dsimp only at spec ⊢
  generalize Action.exec s smooth (m.releaseLease key nodeID) world = ended at spec ⊢
  cases found : world.quota ns ns with
  | none =>
    rw [found] at spec
    rw [spec]
    refine ⟨?_, fun _ _ => rfl⟩
    intro pool present
    simp [Cluster.pool, found] at present
  | some stored =>
    rw [found] at spec
    dsimp only at spec
    have erased := released_allocations resource stored nodeID
    have pool := Cluster.pool_found found
    cases computed : released resource stored nodeID with
    | none =>
      rw [computed] at spec erased
      refine ⟨?_, fun other _ => spec.2.pool other ns⟩
      intro after present
      rw [spec.2.pool, pool] at present
      obtain rfl := Option.some.inj present
      exact Option.map_eq_none_iff.mp erased.symm
    | some status =>
      rw [computed] at spec erased
      have after := spec.2.pool_written found
      refine ⟨?_, fun other different => ?_⟩
      · intro later present
        rw [after] at present
        obtain rfl := Option.some.inj present
        obtain ⟨_, _, same⟩ := Option.map_eq_some_iff.mp erased.symm
        change (status.allocations resource).lookup nodeID = none
        rw [show status.allocations resource = _ from same.symm]
        exact AList.lookup_erase ..
      · rw [after, pool, released_other computed different]

/-- A release without an entry only reads. -/
theorem releaseLease_again (absent : world.Absent resource ns nodeID) :
    (Action.exec s smooth (m.releaseLease key nodeID) world).2 = world ∧
      ∀ request ∈ Action.requests s smooth (m.releaseLease key nodeID) world, request.writesStatus = false := by
  have next : ∃ rest : Option ObjectQuota → Action Int64, m.releaseLease key nodeID = perform (.getQuota ns ns) >>= rest ∧
      rest (world.quota ns ns) = return 0 := by
    unfold Decodes at decodes
    unfold K8sLeaseManager.releaseLease
    rw [decodes]
    refine ⟨_, rfl, ?_⟩
    cases found : world.quota ns ns with
    | none => rfl
    | some stored =>
      have missing := absent (stored.spec, stored.status.allocations resource) (by simp [Cluster.pool, found])
      have nothing : released resource stored nodeID = none := by
        rw [← Option.map_eq_none_iff, released_allocations, missing, Option.map_none]
      cases resource with
      | fd =>
        simp only [released] at nothing
        simp only [reduceCtorEq, decide_false, Bool.false_eq_true, ↓reduceIte, K8sLeaseManager.releaseFD, nothing]
      | proc =>
        simp only [released] at nothing
        simp only [decide_true, ↓reduceIte, K8sLeaseManager.releaseProc, nothing]
  obtain ⟨rest, split, ends⟩ := next
  rw [split]
  refine ⟨?_, ?_⟩
  · rw [Action.exec_bind, Action.exec_perform]
    change (Action.exec s smooth (rest (world.quota ns ns)) world).2 = world
    rw [ends]
    rfl
  · change ∀ request ∈ Request.getQuota ns ns :: Action.requests s smooth (rest (world.quota ns ns)) world, _
    rw [ends]
    intro request member
    rw [List.mem_singleton.mp member]
    rfl

end release

section removal
variable {s : Syncer} {m : K8sLeaseManager} (leased : s.leaser = some m) {ns : String}
  (decodes : ∀ resource, Decodes (Syncer.leaseKey resource ns) resource ns) (world : Cluster)
include leased decodes

theorem releaseLeases_absent (resource : Resource) :
    (Flow.exec s smooth (s.releaseLeases ns) world).2.Absent resource ns s.nodeID := by
  unfold Syncer.releaseLeases
  rw [leased]
  simp only [Flow.exec_bind, Flow.exec_lift, Flow.exec_return]
  obtain ⟨absent, _⟩ := releaseLease_absent s m (decodes .fd) s.nodeID world
  have last := releaseLease_absent s m (decodes .proc) s.nodeID
    (Action.exec s smooth (m.releaseLease (Syncer.leaseKey .fd ns) s.nodeID) world).2
  cases resource with
  | proc => exact last.1
  | fd =>
    intro pool present
    exact absent pool (last.2 .fd (by decide) ▸ present)

theorem releaseLeases_again (absent : ∀ resource, world.Absent resource ns s.nodeID) :
    (Flow.exec s smooth (s.releaseLeases ns) world).2 = world ∧
      ∀ request ∈ Flow.requests s smooth (s.releaseLeases ns) world, request.writesStatus = false := by
  obtain ⟨fd, fdReads⟩ := releaseLease_again s m (decodes .fd) s.nodeID world (absent .fd)
  obtain ⟨proc, procReads⟩ := releaseLease_again s m (decodes .proc) s.nodeID world (absent .proc)
  have lifted {α : Type} (action : Action α) : Flow.exec s smooth action.lift world = Action.exec s smooth action world :=
    Flow.exec_lift s smooth action world
  have fdLifted := congrArg Prod.snd (lifted (m.releaseLease (Syncer.leaseKey .fd ns) s.nodeID))
  have procLifted := congrArg Prod.snd (lifted (m.releaseLease (Syncer.leaseKey .proc ns) s.nodeID))
  rw [fd] at fdLifted
  rw [proc] at procLifted
  unfold Syncer.leaseKey at *
  unfold Syncer.releaseLeases
  rw [leased]
  dsimp only at *
  refine ⟨?_, fun request member => ?_⟩
  · rw [Flow.exec_bind, fdLifted, Flow.exec_bind, procLifted]
    rfl
  · rw [Flow.requests_bind, fdLifted, Flow.requests_bind, Flow.requests_lift, Flow.requests_lift] at member
    rcases List.mem_append.mp member with first | later
    · obtain ⟨asked, inside, rfl⟩ := List.mem_map.mp first
      exact fdReads asked inside
    · rcases List.mem_append.mp later with second | impossible
      · obtain ⟨asked, inside, rfl⟩ := List.mem_map.mp second
        exact procReads asked inside
      · exact absurd impossible List.not_mem_nil

/-- A removal that has run before changes nothing. -/
theorem removeNamespace_again (now : Int) :
    let once := (Flow.exec s smooth (s.removeNamespace ns) world).2
    Rests once (Flow.exec s smooth (s.removeNamespace ns) { once with now }).2 ∧
      ∀ request ∈ Flow.requests s smooth (s.removeNamespace ns) { once with now }, request.writesStatus = false := by
  obtain ⟨again, reads⟩ := releaseLeases_again leased decodes
    { (Flow.exec s smooth (s.removeNamespace ns) world).2 with now } (by
      intro resource
      rw [s.removeNamespace_smooth]
      exact releaseLeases_absent leased decodes world resource)
  have cleared : ((Flow.exec s smooth (s.removeNamespace ns) world).2.nodes s.nodeID).Cleared ns := by
    rw [s.removeNamespace_smooth]
    dsimp only
    rw [Cluster.editNode_self]
    exact Node.removed_cleared _ ns
  generalize (Flow.exec s smooth (s.removeNamespace ns) world).2 = once at again reads cleared ⊢
  dsimp only
  refine ⟨?_, ?_⟩
  · rw [s.removeNamespace_smooth]
    dsimp only
    rw [again]
    dsimp only
    rw [cleared.removed_eq]
    refine ⟨⟨rfl, rfl, Nat.le_refl _⟩, ⟨?_, rfl⟩, rfl⟩
    exact Function.update_eq_self ..
  · intro request member
    unfold Syncer.removeNamespace at member
    rw [Flow.requests_bind] at member
    rcases List.mem_append.mp member with first | later
    · exact reads request first
    · have asks : Program.Asks (fun request : ControllerRequest => request.writesStatus = false) (do
          issue (.deleteNsLimit .fd (namespaceKey ns))
          issue (.deleteNsCounter .fd (namespaceKey ns))
          issue (.deleteNsLimit .proc (namespaceKey ns))
          issue (.deleteNsCounter .proc (namespaceKey ns))
          issue (.removeCgroups ns) : Flow Unit) :=
        ⟨rfl, fun _ => ⟨rfl, fun _ => ⟨rfl, fun _ => ⟨rfl, fun _ => ⟨rfl, fun _ => trivial⟩⟩⟩⟩⟩
      exact asks.requests request later

end removal

/-- A second `SyncFromQuota` at some later time, with nothing in between: it updates no
status, and leaves every node, every quota and, up to renew times, every heartbeat as the
first one did. -/
structure Quiescent (s : Syncer) (quota : ObjectQuota) (world : Cluster) (now : Int) : Prop where
  nodes : let once := (Flow.exec s smooth (s.syncFromQuota quota) world).2
    (Flow.exec s smooth (s.syncFromQuota quota) { once with now }).2.nodes = once.nodes
  quotas : let once := (Flow.exec s smooth (s.syncFromQuota quota) world).2
    (Flow.exec s smooth (s.syncFromQuota quota) { once with now }).2.quotas = once.quotas
  heartbeats : let once := (Flow.exec s smooth (s.syncFromQuota quota) world).2
    (Flow.exec s smooth (s.syncFromQuota quota) { once with now }).2.leases.map Lease.identity = once.leases.map Lease.identity
  silent : let once := (Flow.exec s smooth (s.syncFromQuota quota) world).2
    ∀ request ∈ Flow.requests s smooth (s.syncFromQuota quota) { once with now }, request.writesStatus = false

/-- A half of the sync is granted nothing, and stores that. -/
def HollowGrant (s : Syncer) (m : K8sLeaseManager) (quota : ObjectQuota) (world : Cluster) (resource : Resource) : Prop :=
  s.nodeID = m.nodeID ∧ quota.spec.limit resource ≠ none ∧ ∃ stored, world.quota quota.ns quota.ns = some stored ∧
    m.Hollow (stored.spec.limit resource) (stored.status.allocations resource) (quota.spec.leaseBatchSize.getD 0)

/-- Every amount that is recorded is positive, and no limit is negative. -/
def Healthy (stored : ObjectQuota) : Prop :=
  ∀ resource, (∀ entry ∈ (stored.status.allocations resource).entries, 0 < entry.2) ∧ 0 ≤ (stored.spec.limit resource).getD 0

theorem Quiescent.of_rests {s : Syncer} {quota : ObjectQuota} {world : Cluster} {now : Int}
    (rests : let once := (Flow.exec s smooth (s.syncFromQuota quota) world).2
      Rests once (Flow.exec s smooth (s.syncFromQuota quota) { once with now }).2)
    (silent : let once := (Flow.exec s smooth (s.syncFromQuota quota) world).2
      ∀ request ∈ Flow.requests s smooth (s.syncFromQuota quota) { once with now }, request.writesStatus = false) :
    Quiescent s quota world now :=
  ⟨rests.off.nodes, rests.quotas.quotas, rests.beats, silent⟩

theorem hollowGrant_iff {s : Syncer} {m : K8sLeaseManager} {quota : ObjectQuota} {world : Cluster} {resource : Resource}
    (set : quota.spec.limit resource ≠ none) : HollowGrant s m quota world resource ↔
      s.nodeID = m.nodeID ∧ ∃ pool ∈ world.pool resource quota.ns,
        m.Hollow (pool.1.limit resource) pool.2 (quota.spec.leaseBatchSize.getD 0) := by
  unfold HollowGrant Cluster.pool
  constructor
  · rintro ⟨own, _, stored, found, hollow⟩
    exact ⟨own, _, Option.map_eq_some_iff.mpr ⟨stored, found, rfl⟩, hollow⟩
  · rintro ⟨own, _, found, hollow⟩
    obtain ⟨stored, read, rfl⟩ := Option.map_eq_some_iff.mp found
    exact ⟨own, set, stored, read, hollow⟩

theorem Healthy.pool {quota : ObjectQuota} {world : Cluster} (healthy : ∀ stored ∈ world.quota quota.ns quota.ns, Healthy stored)
    (resource : Resource) : ∀ pool ∈ world.pool resource quota.ns,
      (∀ entry ∈ pool.2.entries, 0 < entry.2) ∧ 0 ≤ (pool.1.limit resource).getD 0 := by
  intro pool found
  obtain ⟨stored, read, rfl⟩ := Option.map_eq_some_iff.mp found
  exact healthy stored read resource

section
variable {s : Syncer} {m : K8sLeaseManager} (leased : s.leaser = some m) {quota : ObjectQuota}
  (decodes : ∀ resource, Decodes (Syncer.leaseKey resource quota.ns) resource quota.ns) (world : Cluster)
include leased decodes

abbrev Idle (s : Syncer) (m : K8sLeaseManager) (resource : Resource) (quota : ObjectQuota) (world : Cluster) : Prop :=
  quota.spec.limit resource ≠ none → ¬ s.Pending m resource quota.ns (quota.spec.leaseBatchSize.getD 0) world

/-- The two halves of a run that has been made before. -/
theorem syncFromQuota_again (set : ¬ (quota.spec.fileDescriptors = none ∧ quota.spec.processes = none))
    (fd : s.Done m .fd quota quota.spec.fileDescriptors world) (proc : s.Done m .proc quota quota.spec.processes world) :
    ((∀ request ∈ Flow.requests s smooth (s.syncFromQuota quota) world, request.writesStatus = false) ↔
        ∀ resource, Idle s m resource quota world) ∧
      ((∀ resource, Idle s m resource quota world) → Rests world (Flow.exec s smooth (s.syncFromQuota quota) world).2) := by
  have fdSilent := halfRequests_silent_iff leased (decodes .fd) fd
  have onward (idle : Idle s m .fd quota world) :
      Rests world (s.syncedHalf .fd quota quota.spec.fileDescriptors world) :=
    syncedHalf_again leased (decodes .fd) _ world fd idle
  have procSilent (idle : Idle s m .fd quota world) := halfRequests_silent_iff leased (decodes .proc) ((onward idle).done proc)
  constructor
  · rw [syncFromQuota_requests, if_neg set, List.append_nil]
    constructor
    · intro silent
      have fdIdle : Idle s m .fd quota world := fdSilent.mp fun request member =>
        silent (.sync request) (List.mem_append_left _ (List.mem_map_of_mem member))
      have procIdle := (procSilent fdIdle).mp fun request member =>
        silent (.sync request) (List.mem_append_right _ (List.mem_map_of_mem member))
      rw [(onward fdIdle).pending_iff] at procIdle
      intro resource
      cases resource with
      | fd => exact fdIdle
      | proc => exact procIdle
    · intro idle request member
      rcases List.mem_append.mp member with first | second
      · obtain ⟨asked, inside, rfl⟩ := List.mem_map.mp first
        exact fdSilent.mpr (idle .fd) asked inside
      · obtain ⟨asked, inside, rfl⟩ := List.mem_map.mp second
        apply (procSilent (idle .fd)).mpr _ asked inside
        rw [(onward (idle .fd)).pending_iff]
        exact idle .proc
  · intro idle
    rw [s.syncFromQuota_smooth, if_neg set]
    apply (onward (idle .fd)).trans
    apply syncedHalf_again leased (decodes .proc) _ _ ((onward (idle .fd)).done proc)
    rw [(onward (idle .fd)).pending_iff]
    exact idle .proc

/-- What is pending after a run. -/
theorem idle_once_iff (set : ¬ (quota.spec.fileDescriptors = none ∧ quota.spec.processes = none))
    (healthy : ∀ stored ∈ world.quota quota.ns quota.ns, Healthy stored) (resource : Resource) :
    Idle s m resource quota (Flow.exec s smooth (s.syncFromQuota quota) world).2 ↔ ¬ HollowGrant s m quota world resource := by
  rw [s.syncFromQuota_smooth, if_neg set]
  dsimp only
  have apart (first : Resource) (limit : Option Int64) (world : Cluster) (other : Resource) (different : other ≠ first) :
      (s.syncedHalf first quota limit world).pool other quota.ns = world.pool other quota.ns := by
    rw [syncedHalf_poolAfter leased (decodes first), s.poolAfter_other m different, Option.map_id_apply, ite_self]
  unfold Idle
  by_cases own : quota.spec.limit resource = none
  · constructor
    · rintro - ⟨_, here, _⟩
      exact here own
    · exact fun _ here => absurd own here
  · rw [hollowGrant_iff own]
    have all := Healthy.pool healthy resource
    cases resource with
    | fd =>
      have half := pending_half_iff leased (decodes .fd) own all
      unfold Syncer.Pending at half ⊢
      rw [apart .proc _ _ .fd (by decide), ← half]
      exact ⟨fun idle => idle own, fun idle _ => idle⟩
    | proc =>
      have same := apart .fd quota.spec.fileDescriptors world .proc (by decide)
      rw [← same] at all ⊢
      rw [← pending_half_iff leased (decodes .proc) own all]
      exact ⟨fun idle => idle own, fun idle _ => idle⟩

end

/-- The second run is quiet unless a half of the first one was granted nothing and stored
that as a credit. -/
theorem quiescent_iff {s : Syncer} {m : K8sLeaseManager} (leased : s.leaser = some m) {quota : ObjectQuota}
    (named : quota.ns ≠ "") (plain : ¬ ∃ base, quota.ns = base ++ "-proc") {world : Cluster}
    (healthy : ∀ stored ∈ world.quota quota.ns quota.ns, Healthy stored) (now : Int) :
    Quiescent s quota world now ↔ ∀ resource, ¬ HollowGrant s m quota world resource := by
  have decodes (resource : Resource) : Decodes (Syncer.leaseKey resource quota.ns) resource quota.ns := by
    cases resource with
    | fd => exact decodes_fd plain
    | proc => exact decodes_proc named
  by_cases neither : quota.spec.fileDescriptors = none ∧ quota.spec.processes = none
  · have executed (world : Cluster) : (Flow.exec s smooth (s.syncFromQuota quota) world).2 =
        (Flow.exec s smooth (s.removeNamespace quota.ns) world).2 := by
      rw [s.syncFromQuota_smooth, if_pos neither]
    have asked (world : Cluster) : Flow.requests s smooth (s.syncFromQuota quota) world =
        Flow.requests s smooth (s.removeNamespace quota.ns) world := by
      rw [syncFromQuota_requests, if_pos neither, neither.1, neither.2]
      rfl
    obtain ⟨rests, silent⟩ := removeNamespace_again leased decodes world now
    constructor
    · rintro - resource ⟨_, set, _⟩
      cases resource with
      | fd => exact set neither.1
      | proc => exact set neither.2
    · intro _
      apply Quiescent.of_rests
      · rw [executed world]
        dsimp only
        rw [executed]
        exact rests
      · rw [executed world]
        dsimp only
        rw [asked]
        exact silent
  · have done : let once := (Flow.exec s smooth (s.syncFromQuota quota) world).2
        s.Done m .fd quota quota.spec.fileDescriptors once ∧ s.Done m .proc quota quota.spec.processes once := by
      rw [s.syncFromQuota_smooth, if_neg neither]
      exact ⟨syncedHalf_keeps leased (decodes .proc) _ (syncedHalf_done leased (decodes .fd) _ world),
        syncedHalf_done leased (decodes .proc) _ _⟩
    have rested := Rests.later (Flow.exec s smooth (s.syncFromQuota quota) world).2 now
    obtain ⟨silent_iff, rests⟩ := syncFromQuota_again leased decodes
      { (Flow.exec s smooth (s.syncFromQuota quota) world).2 with now } neither (rested.done done.1) (rested.done done.2)
    have idle (resource : Resource) : Idle s m resource quota { (Flow.exec s smooth (s.syncFromQuota quota) world).2 with now } ↔
        ¬ HollowGrant s m quota world resource := by
      unfold Idle
      rw [rested.pending_iff]
      exact idle_once_iff leased decodes world neither healthy resource
    constructor
    · intro quiescent resource
      exact (idle resource).mp (silent_iff.mp quiescent.silent resource)
    · intro full
      have all (resource : Resource) := (idle resource).mpr (full resource)
      exact .of_rests (rested.trans (rests all)) (silent_iff.mpr all)

/-- A node that is granted part of the limit at once, with another one next to it. -/
theorem quiescent_team :
    let m := newK8sLeaseManager "node" 1000
    let quota : ObjectQuota := ⟨"team", "team", 0, ⟨some 100, some 0, none⟩, ⟨AList.insert "other" 30 ∅, ∅, 70, some 1⟩⟩
    Quiescent ⟨"node", some m⟩ quota (.empty [quota]) (100 * second) := by
  intro m quota
  apply (quiescent_iff rfl (by decide) (unmarked_of_last (by decide)) _ _).mpr
  · rintro (_ | _) ⟨_, _, stored, read, hollow⟩
    · obtain rfl : quota = stored := Option.some.inj read
      exact absurd hollow.unlimited (by decide)
    · obtain rfl : quota = stored := Option.some.inj read
      exact absurd hollow.wraps (by decide +kernel)
  · intro stored read
    obtain rfl : quota = stored := Option.some.inj read
    rintro (_ | _) <;> decide +kernel

/-- Two other nodes hold so much that the sum of their amounts overflows; a limit of
nothing is then granted to the node again and again. -/
theorem hollow_grant_repeats :
    let m := newK8sLeaseManager "node" 1000
    let quota : ObjectQuota := ⟨"team", "team", 0, ⟨some 0, none, none⟩,
      ⟨(AList.insert "a" (2 ^ 62) ∅).insert "b" (2 ^ 62 + 1), ∅, 0, none⟩⟩
    let world : Cluster := .empty [quota]
    quota.name = quota.ns ∧ (¬ ∃ base, quota.ns = base ++ "-proc") ∧
      (∀ stored ∈ world.quota quota.ns quota.ns, Healthy stored) ∧ ¬ Quiescent ⟨"node", some m⟩ quota world 0 := by
  intro m quota world
  refine ⟨rfl, unmarked_of_last (by decide), ?_, ?_⟩
  · intro stored read
    obtain rfl : quota = stored := Option.some.inj read
    rintro (_ | _) <;> decide +kernel
  · intro quiescent
    have versions := congrArg (List.map (·.status.version)) quiescent.quotas
    exact absurd versions (by decide +kernel)

end QuotaManager
