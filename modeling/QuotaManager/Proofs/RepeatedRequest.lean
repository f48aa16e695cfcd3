import QuotaManager.Proofs.LeaseKeys

/-! A request for credits that is made again. The first one leaves the pool such that
the node is not granted anything more, and the heartbeat written. The exception is a
grant of nothing, which is stored like any other and asked for again. -/

namespace QuotaManager
open Enforcer Holdings

namespace K8sLeaseManager
variable (m : K8sLeaseManager)

/-- A request of this size finds no credits of the node and something left in the pool. -/
def Grants (limit : Option Int64) (allocations : Allocations) (amount : Int64) : Prop :=
  (allocations.lookup m.nodeID).filter (0 < ·) = none ∧ (m.grant allocations limit m.nodeID amount).value ≠ none

/-- The allocations after a request. -/
def regranted (limit : Option Int64) (allocations : Allocations) (amount : Int64) : Allocations :=
  if (allocations.lookup m.nodeID).filter (0 < ·) = none then
    ((m.grant allocations limit m.nodeID amount).value.map (·.allocations)).getD allocations
  else allocations

/-- No limit, no amount asked for, and what the others hold wraps around to something
negative: then a part of nothing is granted. -/
structure Hollow (limit : Option Int64) (allocations : Allocations) (amount : Int64) : Prop where
  absent : m.nodeID ∉ allocations
  unlimited : limit.getD 0 = 0
  unasked : amount ≤ 0
  wraps : 0 < - Int64.ofInt (credits allocations)

theorem regranted_held (limit : Option Int64) (amount : Int64) {allocations : Allocations}
    (held : (allocations.lookup m.nodeID).filter (0 < ·) ≠ none) : m.regranted limit allocations amount = allocations :=
  if_neg held

section grant
variable {m} {limit : Option Int64} {allocations : Allocations} {amount : Int64}

theorem grant_value (nodeID : String) : (m.grant allocations limit nodeID amount).value =
    let available := limit.getD 0 - Int64.ofInt (credits allocations)
    if available ≤ 0 then none
    else
      let grant := min (if amount ≤ 0 then m.batch (limit.getD 0) else amount) available
      some ⟨allocations.insert nodeID ((allocations.lookup nodeID).getD 0 + grant), limit.getD 0,
        Int64.ofInt (credits allocations), grant⟩ := by
  simp only [grant, Checked.bind_value, Checked.sub_value, Checked.sum_value, Within.amounts_sum]
  by_cases exhausted : limit.getD 0 - Int64.ofInt (credits allocations) ≤ 0
  · simp only [exhausted, ↓reduceIte, Checked.pure_value]
  · simp only [exhausted, ↓reduceIte, Checked.bind_value, Checked.add_value, Checked.pure_value]

theorem batch_zero : m.batch 0 = 0 := by
  apply Int64.toInt_inj.mp
  have positive := Int64.lt_iff_toInt_lt.mp m.positive
  unfold batch
  simp only [Words.toInt_min, Words.toInt_max, Int64.reduceToInt, Int64.toInt_zero] at positive ⊢
  omega

/-- What is granted is nothing only when nothing is asked for and there is no limit. -/
theorem asked_positive (nonneg : 0 ≤ limit.getD 0) (full : ¬ (limit.getD 0 = 0 ∧ amount ≤ 0)) :
    0 < (if amount ≤ 0 then m.batch (limit.getD 0) else amount) := by
  split
  next unasked =>
    have some_limit : limit.getD 0 ≠ 0 := fun zero => full ⟨zero, unasked⟩
    rw [Int64.lt_iff_toInt_lt, Int64.toInt_zero]
    apply batch_positive
    have := Int64.le_iff_toInt_le.mp nonneg
    have different : (limit.getD 0).toInt ≠ 0 := fun zero => some_limit (Int64.toInt_inj.mp zero)
    rw [Int64.toInt_zero] at this
    omega
  next asked => exact Int64.not_le.mp asked

theorem min_positive {one two : Int64} (first : 0 < one) (second : 0 < two) : 0 < min one two := by
  rw [Int64.lt_iff_toInt_lt] at *
  rw [Words.toInt_min]
  omega

theorem grant_none_iff (nodeID : String) :
    (m.grant allocations limit nodeID amount).value = none ↔ limit.getD 0 - Int64.ofInt (credits allocations) ≤ 0 := by
  rw [grant_value]
  dsimp only
  split
  next exhausted => exact iff_of_true rfl exhausted
  next left => exact iff_of_false (Option.some_ne_none _) left

theorem unheld_fresh (positive : ∀ entry ∈ allocations.entries, 0 < entry.2)
    (unheld : (allocations.lookup m.nodeID).filter (0 < ·) = none) : m.nodeID ∉ allocations := by
  apply AList.lookup_eq_none.mp
  cases found : allocations.lookup m.nodeID with
  | none => rfl
  | some value =>
    have held := positive ⟨m.nodeID, value⟩ (AList.mem_lookup_iff.mp found)
    simp only [found, Option.filter, decide_eq_true held, ↓reduceIte, reduceCtorEq] at unheld

/-- A node with no entry is granted what it asks for, or what is left. -/
theorem regranted_fresh (fresh : m.nodeID ∉ allocations) (left : ¬ limit.getD 0 - Int64.ofInt (credits allocations) ≤ 0) :
    m.regranted limit allocations amount = allocations.insert m.nodeID
      (min (if amount ≤ 0 then m.batch (limit.getD 0) else amount) (limit.getD 0 - Int64.ofInt (credits allocations))) := by
  have missing := AList.lookup_eq_none.mpr fresh
  rw [regranted, if_pos (by rw [missing]; rfl), grant_value]
  simp only [left, ↓reduceIte, Option.map_some, Option.getD_some, missing, Option.getD_none, Int64.zero_add]

/-- A grant of nothing changes nothing about the next one. -/
theorem Hollow.grants (hollow : m.Hollow limit allocations amount) :
    m.Grants limit (m.regranted limit allocations amount) amount := by
  have left : ¬ limit.getD 0 - Int64.ofInt (credits allocations) ≤ 0 := by
    rw [hollow.unlimited, Int64.zero_sub]
    exact Int64.not_le.mpr hollow.wraps
  have nothing : min (if amount ≤ 0 then m.batch (limit.getD 0) else amount) (limit.getD 0 - Int64.ofInt (credits allocations)) =
      0 := by
    rw [if_pos hollow.unasked, hollow.unlimited, batch_zero, Int64.zero_sub]
    apply Int64.toInt_inj.mp
    rw [Words.toInt_min]
    exact min_eq_left (le_of_lt (Int64.lt_iff_toInt_lt.mp hollow.wraps))
  have same : credits (allocations.insert m.nodeID 0) = credits allocations := by
    unfold credits
    rw [total_grant hollow.absent, Int64.toInt_zero, Int.zero_add]
  rw [regranted_fresh hollow.absent left, nothing]
  refine ⟨by rw [AList.lookup_insert]; rfl, ?_⟩
  rw [ne_eq, grant_none_iff, same]
  exact left

/-- A request leaves a pool in which the same request finds credits or nothing left,
unless it was granted nothing. -/
theorem grants_regranted_iff (positive : ∀ entry ∈ allocations.entries, 0 < entry.2) (nonneg : 0 ≤ limit.getD 0) :
    m.Grants limit (m.regranted limit allocations amount) amount ↔ m.Hollow limit allocations amount := by
  refine ⟨fun grants => ?_, Hollow.grants⟩
  have unheld : (allocations.lookup m.nodeID).filter (0 < ·) = none := by
    by_contra held
    rw [m.regranted_held limit amount held] at grants
    exact held grants.1
  have fresh := unheld_fresh positive unheld
  have left : ¬ limit.getD 0 - Int64.ofInt (credits allocations) ≤ 0 := by
    intro exhausted
    have nothing : (m.grant allocations limit m.nodeID amount).value = none := (grant_none_iff m.nodeID).mpr exhausted
    rw [regranted, if_pos unheld, nothing, Option.map_none, Option.getD_none] at grants
    exact grants.2 nothing
  have some_left := Int64.not_le.mp left
  by_cases full : limit.getD 0 = 0 ∧ amount ≤ 0
  · rw [full.1, Int64.zero_sub] at some_left
    exact ⟨fresh, full.1, full.2, some_left⟩
  · have granted := min_positive (asked_positive (m := m) nonneg full) some_left
    have absent := grants.1
    rw [regranted_fresh fresh left, AList.lookup_insert] at absent
    simp [Option.filter, granted] at absent

end grant
end K8sLeaseManager

/-- The spec of the quota of a namespace and what is allocated of one resource. -/
def Cluster.pool (world : Cluster) (resource : Resource) (ns : String) : Option (ObjectQuotaSpec × Allocations) :=
  (world.quota ns ns).map fun stored => (stored.spec, stored.status.allocations resource)

theorem SameQuotas.pool {before after : Cluster} (same : SameQuotas before after) (resource : Resource) (ns : String) :
    after.pool resource ns = before.pool resource ns := by
  unfold Cluster.pool
  rw [same.quota]

theorem Cluster.pool_found {world : Cluster} {ns : String} {stored : ObjectQuota} (found : world.quota ns ns = some stored)
    (resource : Resource) : world.pool resource ns = some (stored.spec, stored.status.allocations resource) := by
  simp only [Cluster.pool, found, Option.map_some]

/-- The pools are those of the status that was written last. -/
theorem SameQuotas.pool_written {world after : Cluster} {ns : String} {stored : ObjectQuota} (found : world.quota ns ns = some stored)
    {writer : Writer} {status : ObjectQuotaStatus} (same : SameQuotas (world.commitStatus writer { stored with status }) after)
    (resource : Resource) : after.pool resource ns = some (stored.spec, status.allocations resource) := by
  obtain ⟨sameNs, sameName⟩ := Cluster.quota_named found
  rw [same.pool]
  unfold Cluster.pool
  rw [Cluster.quota_commitStatus, found, Option.map_some, if_pos ⟨sameNs.symm, sameName.symm⟩]
  rfl

section requests
variable {s : Syncer} {m : K8sLeaseManager} {resource : Resource} {key ns : String} {amount : Int64} {world : Cluster}

theorem requested_regranted {stored : ObjectQuota} (amount : Int64)
    (absent : ((stored.status.allocations resource).lookup m.nodeID).filter (0 < ·) = none) :
    m.regranted (stored.spec.limit resource) (stored.status.allocations resource) amount =
      ((m.requested resource stored m.nodeID amount).map (·.allocations resource)).getD (stored.status.allocations resource) := by
  rw [K8sLeaseManager.regranted, if_pos absent, m.requested_allocations]

/-- What a request of the own node makes of the pools, and what it answers. -/
theorem smooth_requestLease_pool (s : Syncer) (m : K8sLeaseManager) (decodes : Decodes key resource ns) (amount : Int64)
    (world : Cluster) :
    let ended := Action.exec s smooth (m.requestLease key m.nodeID amount) world
    (∀ other, ended.2.pool other ns = (world.pool other ns).map fun pool =>
      (pool.1, if other = resource then m.regranted (pool.1.limit resource) pool.2 amount else pool.2)) ∧
    ended.1 = (ended.2.pool resource ns).elim (.error (.getQuota ns)) fun pool => .ok ((pool.2.lookup m.nodeID).getD 0) := by
  have spec := smooth_requestLease s m decodes amount world
  dsimp only at spec ⊢
  generalize Action.exec s smooth (m.requestLease key m.nodeID amount) world = ended at spec ⊢
  cases found : world.quota ns ns with
  | none =>
    rw [found] at spec
    rw [spec]
    simp only [Cluster.pool, found, Option.map_none, Option.elim_none, implies_true, and_self]
  | some stored =>
    rw [found] at spec
    dsimp only [Answers] at spec
    have pool := Cluster.pool_found found
    cases held : ((stored.status.allocations resource).lookup m.nodeID).filter (0 < ·) with
    | some existing =>
      rw [held] at spec
      have same := m.regranted_held (stored.spec.limit resource) amount (by rw [held]; exact Option.some_ne_none _)
      refine ⟨fun other => ?_, ?_⟩
      · rw [spec.2.pool, pool, Option.map_some]
        split
        next here => rw [here, same]
        · rfl
      · rw [spec.1, spec.2.pool, pool, Option.elim_some, (Option.filter_eq_some_iff.mp held).1]
        rfl
    | none =>
      rw [held] at spec
      have regranted := requested_regranted amount held
      cases computed : m.requested resource stored m.nodeID amount with
      | none =>
        rw [computed] at spec regranted
        refine ⟨fun other => ?_, ?_⟩
        · rw [spec.2.pool, pool, Option.map_some]
          split
          next here => rw [here, regranted]; rfl
          · rfl
        · rw [spec.1, spec.2.pool, pool]
          rfl
      | some status =>
        rw [computed] at spec regranted
        have after := spec.2.pool_written found
        refine ⟨fun other => ?_, ?_⟩
        · rw [after, pool, Option.map_some]
          split
          next here => rw [here, regranted]; rfl
          next different => rw [requested_other m computed different]
        · rw [spec.1, after]
          rfl

end requests

/-- What a renewal leaves of a heartbeat. -/
def Lease.identity (lease : Lease) : String × String × Option String := (lease.ns, lease.name, lease.holderIdentity)

/-- The heartbeat is there, under one holder. -/
def Cluster.Held (world : Cluster) (ns name : String) : Prop :=
  ∃ lease ∈ world.leases, (lease.ns = ns ∧ lease.name = name) ∧
    ∀ other ∈ world.leases, other.ns = ns → other.name = name → other.holderIdentity = lease.holderIdentity

section heartbeat
variable (s : Syncer) (m : K8sLeaseManager) (ns : String) (world : Cluster)

theorem Cluster.lease_named {name : String} {lease : Lease} (found : world.lease ns name = some lease) :
    lease.ns = ns ∧ lease.name = name := by
  simpa using List.find?_some found

theorem ensureLease_leases : (Action.exec s smooth (m.ensureLease ns) world).2.leases =
    match world.lease ns (m.leaseName ns) with
    | none => world.leases ++ [⟨ns, m.leaseName ns, world.revision + 1, some m.nodeID, some world.now⟩]
    | some existing => world.leases.map fun stored =>
      if stored.ns = ns ∧ stored.name = m.leaseName ns then
        { existing with renewTime := some world.now, resourceVersion := world.revision + 1 }
      else stored := by
  unfold K8sLeaseManager.ensureLease
  rw [Action.exec_bind, Action.exec_perform]
  dsimp only [Cluster.serve]
  rw [Action.exec_bind, Action.exec_perform]
  have read : (world.noteActive s.identity ns).lease ns (m.leaseName ns) = world.lease ns (m.leaseName ns) := rfl
  simp only [Cluster.serve, smooth, Option.isSome_none, Bool.false_eq_true, ↓reduceIte]
  cases found : world.lease ns (m.leaseName ns) with
  | none =>
    dsimp only
    rw [Action.exec_bind, Action.exec_perform]
    simp only [Cluster.serve, smooth, true_and]
    have missing : ((world.noteActive s.identity ns).noteActive s.identity ns).lease ns (m.leaseName ns) = none := found
    rw [if_pos missing]
    rfl
  | some existing =>
    obtain ⟨sameNs, sameName⟩ := Cluster.lease_named ns world found
    dsimp only
    rw [Action.exec_bind, Action.exec_perform]
    have present : ((world.noteActive s.identity ns).noteActive s.identity existing.ns).lease existing.ns existing.name =
        some existing := by
      rw [sameNs, sameName]
      exact found
    simp only [Cluster.serve, present, smooth, and_self, ↓reduceIte]
    rw [← sameName, ← sameNs]
    rfl

/-- After a renewal the heartbeat is there. -/
theorem ensureLease_held : (Action.exec s smooth (m.ensureLease ns) world).2.Held ns (m.leaseName ns) := by
  have leases := ensureLease_leases s m ns world
  unfold Cluster.Held
  cases found : world.lease ns (m.leaseName ns) with
  | none =>
    have absent := List.find?_eq_none.mp found
    rw [found] at leases
    rw [leases]
    refine ⟨⟨ns, m.leaseName ns, world.revision + 1, some m.nodeID, some world.now⟩, by simp, ⟨rfl, rfl⟩, ?_⟩
    intro other member sameNs sameName
    rcases List.mem_append.mp member with old | new
    · exact absurd (decide_eq_true ⟨sameNs, sameName⟩) (absent other old)
    · rw [List.mem_singleton.mp new]
  | some existing =>
    have named := Cluster.lease_named ns world found
    rw [found] at leases
    rw [leases]
    refine ⟨{ existing with renewTime := some world.now, resourceVersion := world.revision + 1 }, ?_, named, ?_⟩
    · exact List.mem_map.mpr ⟨existing, List.mem_of_find?_eq_some found, if_pos named⟩
    · intro other member keyNs keyName
      obtain ⟨stored, _, rfl⟩ := List.mem_map.mp member
      by_cases same : stored.ns = ns ∧ stored.name = m.leaseName ns
      · rw [if_pos same]
      · rw [if_neg same] at keyNs keyName
        exact absurd ⟨keyNs, keyName⟩ same

/-- A renewal of a heartbeat that is there changes no more than times. -/
theorem ensureLease_again (held : world.Held ns (m.leaseName ns)) :
    (Action.exec s smooth (m.ensureLease ns) world).2.leases.map Lease.identity = world.leases.map Lease.identity := by
  obtain ⟨lease, listed, ⟨leaseNs, leaseName⟩, alone⟩ := held
  have leases := ensureLease_leases s m ns world
  cases found : world.lease ns (m.leaseName ns) with
  | none => exact absurd (decide_eq_true ⟨leaseNs, leaseName⟩) (List.find?_eq_none.mp found lease listed)
  | some existing =>
    obtain ⟨sameNs, sameName⟩ := Cluster.lease_named ns world found
    have holder := alone existing (List.mem_of_find?_eq_some found) sameNs sameName
    rw [found] at leases
    rw [leases, List.map_map]
    apply List.map_congr_left
    intro stored member
    rw [Function.comp_apply]
    split
    next same => simp only [Lease.identity, sameNs, sameName, same.1, same.2, holder, alone stored member same.1 same.2]
    · rfl

end heartbeat

/-- What is asked of the API server and the node when an operation runs alone. -/
def Action.requests {α : Type} (s : Syncer) (outcome : Request → Option Nat) (action : Action α) (world : Cluster) :
    List Request :=
  Program.requests (fun world request => world.serve s request) outcome action world

def Flow.requests {α : Type} (s : Syncer) (outcome : ControllerRequest → Option Nat) (flow : Flow α) (world : Cluster) :
    List ControllerRequest :=
  Program.requests (fun world request => world.control s request) outcome flow world

def ControllerRequest.writesStatus : ControllerRequest → Bool
  | .sync request => request.writesStatus
  | _ => false

theorem Request.OffQuotas.reads {request : Request} (off : request.OffQuotas) : request.writesStatus = false := by
  cases request with
  | updateStatus writer quota => exact absurd rfl (off writer quota)
  | _ => rfl

section again
variable {s : Syncer} {m : K8sLeaseManager} {resource : Resource} {key ns : String} {amount : Int64} {world : Cluster}
  {stored : ObjectQuota}

theorem requested_none_iff (resource : Resource) (absent : ((stored.status.allocations resource).lookup m.nodeID).filter (0 < ·) = none) :
    m.requested resource stored m.nodeID amount = none ↔
      ¬ m.Grants (stored.spec.limit resource) (stored.status.allocations resource) amount := by
  have same := m.requested_allocations resource stored m.nodeID amount
  have both : m.requested resource stored m.nodeID amount = none ↔
      (m.grant (stored.status.allocations resource) (stored.spec.limit resource) m.nodeID amount).value = none := by
    rw [← Option.map_eq_none_iff, same, Option.map_eq_none_iff]
  rw [both]
  constructor
  · intro exhausted grants
    exact grants.2 exhausted
  · intro settled
    by_contra something
    exact settled ⟨absent, something⟩

/-- Nothing is granted: then a request writes the heartbeat at most. -/
theorem requestFD_again (ns : String) (settled : ¬ m.Grants (stored.spec.limit .fd) (stored.status.allocations .fd) amount) :
    ∃ value, m.requestFD stored ns m.nodeID amount = do
      m.ensureLease ns
      return .ok value := by
  unfold K8sLeaseManager.requestFD
  cases held : (stored.status.fdAllocations.lookup m.nodeID).filter (0 < ·) with
  | some existing => exact ⟨existing, rfl⟩
  | none =>
    have nothing : (m.requestedFD stored m.nodeID amount).value = none := (requested_none_iff .fd held).mpr settled
    rw [nothing]
    exact ⟨_, rfl⟩

theorem requestProc_again (ns : String) (settled : ¬ m.Grants (stored.spec.limit .proc) (stored.status.allocations .proc) amount) :
    ∃ value, m.requestProc stored ns m.nodeID amount = return .ok value := by
  unfold K8sLeaseManager.requestProc
  cases held : (stored.status.procAllocations.lookup m.nodeID).filter (0 < ·) with
  | some existing => exact ⟨existing, rfl⟩
  | none =>
    have nothing : (m.requestedProc stored m.nodeID amount).value = none := (requested_none_iff .proc held).mpr settled
    rw [nothing]
    exact ⟨_, rfl⟩

/-- Nothing but times and versions of heartbeats was touched in between. -/
structure Rests (before after : Cluster) : Prop where
  quotas : SameQuotas before after
  off : OffNode before after
  beats : after.leases.map Lease.identity = before.leases.map Lease.identity

theorem Rests.refl (world : Cluster) : Rests world world := ⟨.refl world, .refl world, rfl⟩

theorem ensureLease_rests {α : Type} (value : α) (held : world.Held ns (m.leaseName ns)) :
    Rests world (Action.exec s smooth (do m.ensureLease ns; return value) world).2 := by
  rw [Action.exec_bind, Action.exec_return]
  exact ⟨sameQuotas_exec (ensureLease_offQuotas m ns) world, offNode_exec (m.ensureLease_asks ns) world,
    ensureLease_again s m ns world held⟩

def K8sLeaseManager.requestOf (m : K8sLeaseManager) (resource : Resource) (stored : ObjectQuota) (ns : String) (amount : Int64) :
    Action (Except LeaseError Int64) :=
  match resource with
  | .fd => m.requestFD stored ns m.nodeID amount
  | .proc => m.requestProc stored ns m.nodeID amount

/-- What a request of the own node goes on with after its reading. -/
def K8sLeaseManager.requestNext (m : K8sLeaseManager) (resource : Resource) (ns : String) (amount : Int64)
    (read : Option ObjectQuota) : Action (Except LeaseError Int64) :=
  read.elim (return .error (.getQuota ns)) fun stored => m.requestOf resource stored ns amount

theorem requestLease_own (m : K8sLeaseManager) (decodes : Decodes key resource ns) (amount : Int64) :
    m.requestLease key m.nodeID amount = perform (.getQuota ns ns) >>= m.requestNext resource ns amount := by
  unfold Decodes at decodes
  unfold K8sLeaseManager.requestLease
  rw [decodes]
  dsimp only
  rw [if_neg (by simp)]
  congr 1
  funext read
  cases read <;> cases resource <;> rfl

theorem requestLease_reads (s : Syncer) (m : K8sLeaseManager) (decodes : Decodes key resource ns) (amount : Int64) (world : Cluster) :
    let next := m.requestNext resource ns amount (world.quota ns ns)
    Action.exec s smooth (m.requestLease key m.nodeID amount) world = Action.exec s smooth next world ∧
      Action.requests s smooth (m.requestLease key m.nodeID amount) world =
        .getQuota ns ns :: Action.requests s smooth next world := by
  rw [requestLease_own m decodes]
  exact ⟨rfl, rfl⟩

/-- A request where nothing is granted and the heartbeat is there. -/
theorem requestLease_again (decodes : Decodes key resource ns)
    (settled : ∀ pool ∈ world.pool resource ns, ¬ m.Grants (pool.1.limit resource) pool.2 amount)
    (held : resource = .fd → (world.pool resource ns).isSome → world.Held ns (m.leaseName ns)) :
    Rests world (Action.exec s smooth (m.requestLease key m.nodeID amount) world).2 ∧
      ∀ request ∈ Action.requests s smooth (m.requestLease key m.nodeID amount) world, request.writesStatus = false := by
  obtain ⟨executed, asked⟩ := requestLease_reads s m decodes amount world
  have quiet : Rests world (Action.exec s smooth (m.requestNext resource ns amount (world.quota ns ns)) world).2 ∧
      (m.requestNext resource ns amount (world.quota ns ns)).Asks Request.OffQuotas := by
    cases found : world.quota ns ns with
    | none => exact ⟨.refl world, trivial⟩
    | some stored =>
      have pool : world.pool resource ns = some (stored.spec, stored.status.allocations resource) := by
        simp only [Cluster.pool, found, Option.map_some]
      have still := settled _ pool
      cases resource with
      | fd =>
        obtain ⟨value, same⟩ := requestFD_again ns still
        rw [K8sLeaseManager.requestNext, Option.elim_some, K8sLeaseManager.requestOf, same]
        exact ⟨ensureLease_rests _ (held rfl (by rw [pool]; rfl)), (ensureLease_offQuotas m ns).bind fun _ => trivial⟩
      | proc =>
        obtain ⟨value, same⟩ := requestProc_again ns still
        rw [K8sLeaseManager.requestNext, Option.elim_some, K8sLeaseManager.requestOf, same]
        exact ⟨.refl world, trivial⟩
  rw [executed, asked]
  refine ⟨quiet.1, ?_⟩
  intro request member
  rcases List.mem_cons.mp member with rfl | later
  · rfl
  · exact (quiet.2.requests request later).reads

/-- Where something is granted the request writes it. -/
theorem requestLease_writes (decodes : Decodes key resource ns) {pool : ObjectQuotaSpec × Allocations}
    (found : world.pool resource ns = some pool) (grants : m.Grants (pool.1.limit resource) pool.2 amount) :
    ∃ request ∈ Action.requests s smooth (m.requestLease key m.nodeID amount) world, request.writesStatus = true := by
  obtain ⟨stored, read, rfl⟩ := Option.map_eq_some_iff.mp found
  obtain ⟨status, computed⟩ : ∃ status, m.requested resource stored m.nodeID amount = some status := by
    apply Option.ne_none_iff_exists'.mp
    intro nothing
    exact (requested_none_iff resource grants.1).mp nothing grants
  rw [(requestLease_reads s m decodes amount world).2, read]
  have absent := grants.1
  refine ⟨.updateStatus resource.requester { stored with status }, List.mem_cons_of_mem _ ?_, rfl⟩
  cases resource with
  | fd =>
    simp only [K8sLeaseManager.requested] at computed
    simp only [ObjectQuotaStatus.allocations] at absent
    simp only [K8sLeaseManager.requestNext, Option.elim_some, K8sLeaseManager.requestOf, K8sLeaseManager.requestFD, absent, computed]
    exact List.mem_cons_self
  | proc =>
    simp only [K8sLeaseManager.requested] at computed
    simp only [ObjectQuotaStatus.allocations] at absent
    simp only [K8sLeaseManager.requestNext, Option.elim_some, K8sLeaseManager.requestOf, K8sLeaseManager.requestProc, absent, computed]
    exact List.mem_cons_self

theorem requestFD_held {ns : String} (found : world.quota ns ns = some stored) :
    (Action.exec s smooth (m.requestFD stored ns m.nodeID amount) world).2.Held ns (m.leaseName ns) := by
  unfold K8sLeaseManager.requestFD
  split
  · rw [Action.exec_bind]
    exact ensureLease_held s m ns world
  · split
    · rw [Action.exec_bind]
      exact ensureLease_held s m ns world
    next status computed =>
      have taken := (smooth_updateStatus s .requestFD found status).1
      rw [Action.exec_bind, taken]
      dsimp only
      rw [Action.exec_bind]
      exact ensureLease_held s m ns _

/-- A request for descriptors always ends with the heartbeat. -/
theorem requestLease_held (decodes : Decodes key .fd ns) (present : (world.pool .fd ns).isSome) :
    (Action.exec s smooth (m.requestLease key m.nodeID amount) world).2.Held ns (m.leaseName ns) := by
  rw [(requestLease_reads s m decodes amount world).1]
  cases found : world.quota ns ns with
  | none => simp [Cluster.pool, found] at present
  | some stored => exact requestFD_held found

theorem updateStatus_leases (writer : Writer) (quota : ObjectQuota) :
    (Action.exec s smooth (perform (.updateStatus writer quota)) world).2.leases = world.leases := by
  rw [Action.exec_perform]
  simp only [Cluster.serve]
  split
  · rfl
  · split
    · dsimp only
      split <;> rfl
    · rfl

/-- A request for processes leaves the heartbeats alone. -/
theorem requestLease_leases (decodes : Decodes key .proc ns) :
    (Action.exec s smooth (m.requestLease key m.nodeID amount) world).2.leases = world.leases := by
  rw [(requestLease_reads s m decodes amount world).1]
  cases world.quota ns ns with
  | none => rfl
  | some stored =>
    rw [K8sLeaseManager.requestNext, Option.elim_some, K8sLeaseManager.requestOf]
    unfold K8sLeaseManager.requestProc
    split
    · rfl
    · split
      · rfl
      next status computed =>
        rw [Action.exec_bind]
        split <;> exact updateStatus_leases ..

end again

theorem Cluster.Held.congr {one two : Cluster} {ns name : String} (held : one.Held ns name)
    (same : two.leases.map Lease.identity = one.leases.map Lease.identity) : two.Held ns name := by
  obtain ⟨lease, listed, named, alone⟩ := held
  obtain ⟨current, member, identity⟩ : ∃ current ∈ two.leases, current.identity = lease.identity :=
    List.mem_map.mp (same ▸ List.mem_map_of_mem listed)
  have parts {one two : Lease} (identity : one.identity = two.identity) :
      one.ns = two.ns ∧ one.name = two.name ∧ one.holderIdentity = two.holderIdentity := by
    simpa [Lease.identity] using identity
  obtain ⟨sameNs, sameName, sameHolder⟩ := parts identity
  refine ⟨current, member, ⟨sameNs.trans named.1, sameName.trans named.2⟩, ?_⟩
  intro other listed otherNs otherName
  obtain ⟨old, before, identity⟩ : ∃ old ∈ one.leases, old.identity = other.identity :=
    List.mem_map.mp (same ▸ List.mem_map_of_mem listed)
  obtain ⟨oldNs, oldName, oldHolder⟩ := parts identity
  rw [← oldHolder, sameHolder]
  exact alone old before (oldNs.trans otherNs) (oldName.trans otherName)

end QuotaManager
