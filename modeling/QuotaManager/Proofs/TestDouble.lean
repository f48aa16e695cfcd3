import QuotaManager.FakeLeaseManager
import QuotaManager.Logic.Lockstep
import QuotaManager.Proofs.CreditPool

/-! The lease manager of the tests against the real one. Both keep the same leases until
a node asks again for credits that it holds: the real manager returns them, the fake one
grants more as long as there are any. -/

namespace QuotaManager
open Enforcer Holdings

inductive LeaserCall where
  | requestLease (nodeID : String) (requested : Int64)
  | releaseLease (nodeID : String)
  | getStatus

/-- What a caller gets to see. The texts of errors differ, and a Go map has no order. -/
inductive Returned where
  | granted (amount : Option Int64)
  | released (amount : Int64)
  | status (seen : Option (Int64 × Int64 × (String → Option Int64)))

def Returned.ofStatus (status : Option LeaseStatus) : Returned :=
  .status (status.map fun status => (status.totalLimit, status.allocatedCredits, status.nodeLeases.lookup))

namespace LeaserCall

/-- A call of a node's own manager on a cluster where nothing else is going on. -/
def real (ns : String) (world : Cluster) : LeaserCall → Returned × Cluster
  | .requestLease nodeID requested =>
    let m := newK8sLeaseManager nodeID 1000
    let ended := Action.exec ⟨nodeID, some m⟩ smooth (m.requestLease ns nodeID requested) world
    (.granted ended.1.toOption, ended.2)
  | .releaseLease nodeID =>
    let m := newK8sLeaseManager nodeID 1000
    let ended := Action.exec ⟨nodeID, some m⟩ smooth (m.releaseLease ns nodeID) world
    (.released ended.1, ended.2)
  | .getStatus =>
    let ended := Action.exec ⟨"", none⟩ smooth (K8sLeaseManager.getStatus ns) world
    (.ofStatus ended.1, ended.2)

def fake (ns : String) (f : FakeLeaseManager) : LeaserCall → Returned × FakeLeaseManager
  | .requestLease nodeID requested =>
    let ended := f.requestLease ns nodeID requested
    (.granted ended.1.toOption, ended.2)
  | .releaseLease nodeID =>
    let ended := f.releaseLease ns nodeID
    (.released ended.1, ended.2)
  | .getStatus => (.ofStatus (f.getStatus ns), f)

/-- Requests are not for a namespace with the marker of process leases, and none comes
from a node that holds credits while others are left. -/
def AsksOnce (ns : String) (world : Cluster) : LeaserCall → Prop
  | .requestLease nodeID _ =>
    (isProcSuffix ns).2 = false ∧ ∀ quota ∈ world.quota ns ns, nodeID ∈ quota.status.fdAllocations →
      (quota.spec.fileDescriptors.getD 0).toInt ≤ credits quota.status.fdAllocations
  | .releaseLease _ | .getStatus => True

instance (ns : String) (world : Cluster) : (call : LeaserCall) → Decidable (AsksOnce ns world call)
  | .requestLease nodeID _ =>
    inferInstanceAs (Decidable (_ ∧ ∀ quota ∈ world.quota ns ns, nodeID ∈ quota.status.fdAllocations → _ ≤ _))
  | .releaseLease _ | .getStatus => inferInstanceAs (Decidable True)

end LeaserCall

/-- The pool in memory is what the quota records. -/
structure Mirrors (ns : String) (limit : Int64) (quota : ObjectQuota) (p : FakePool) : Prop where
  sameNs : quota.ns = ns
  sameName : quota.name = ns
  limited : quota.spec.fileDescriptors = some limit
  total : p.totalLimit = limit
  leases : p.nodeLeases = quota.status.fdAllocations
  within : Within (some limit) p.nodeLeases
  allocated : p.allocatedCredits.toInt = credits p.nodeLeases
  marked : (isProcSuffix ns).2 = true → p.nodeLeases = ∅

/-- The cluster has one quota, and the fake manager its pool. -/
def Mirrored (ns : String) (limit : Int64) (world : Cluster) (f : FakeLeaseManager) : Prop :=
  ∃ quota p, world.quotas = [quota] ∧ f.pools ns = some p ∧ Mirrors ns limit quota p

section fake
variable {ns : String} {limit : Int64} {quota : ObjectQuota} {f : FakeLeaseManager} {p : FakePool}

theorem Mirrors.summed (mirrors : Mirrors ns limit quota p) : p.allocatedCredits = (Checked.sum (amounts p.nodeLeases)).value := by
  apply Int64.toInt_inj.mp
  rw [mirrors.allocated, mirrors.within.sum_exact.2]

theorem Mirrors.fake_requestLease (mirrors : Mirrors ns limit quota p) (found : f.pools ns = some p) (nodeID : String)
    (requested : Int64) :
    f.requestLease ns nodeID requested =
      match ((newK8sLeaseManager nodeID 1000).grant p.nodeLeases (some limit) nodeID requested).value with
      | none => (.ok ((p.nodeLeases.lookup nodeID).getD 0), f)
      | some granted =>
        (.ok ((granted.allocations.lookup nodeID).getD 0), f.put ns { p with
          allocatedCredits := p.allocatedCredits + granted.grant
          nodeLeases := granted.allocations }) := by
  have batch : (newK8sLeaseManager nodeID 1000).defaultBatch = 1000 := rfl
  unfold FakeLeaseManager.requestLease K8sLeaseManager.grant
  by_cases exhausted : limit - (Checked.sum (amounts p.nodeLeases)).value ≤ 0
  · simp only [found, mirrors.total, mirrors.summed, Checked.bind_value, Checked.sub_value, Option.getD_some, exhausted,
      ↓reduceIte, Checked.pure_value]
  · simp only [found, mirrors.total, mirrors.summed, K8sLeaseManager.batch, batch, Checked.bind_value, Checked.sub_value,
      Option.getD_some, exhausted, ↓reduceIte, Checked.pure_value, Checked.add_value, AList.lookup_insert]

/-- A grant to a new holder leaves both pools alike. -/
theorem Mirrors.granted (mirrors : Mirrors ns limit quota p) {nodeID : String} (fresh : nodeID ∉ p.nodeLeases)
    {granted : K8sLeaseManager.Grant} (spec : K8sLeaseManager.Granted (some limit) p.nodeLeases nodeID granted)
    (plain : (isProcSuffix ns).2 = false) {status : ObjectQuotaStatus} (stored : status.fdAllocations = granted.allocations)
    (resourceVersion : Nat) : Mirrors ns limit { quota with status, resourceVersion } { p with
      allocatedCredits := p.allocatedCredits + granted.grant
      nodeLeases := granted.allocations } := by
  obtain ⟨kept, grown⟩ := Ledger.granted_within mirrors.within fresh spec
  refine ⟨mirrors.sameNs, mirrors.sameName, mirrors.limited, mirrors.total, stored.symm, kept, ?_, ?_⟩
  · have room := spec.room
    have positive := spec.positive
    have fits := limit.toInt_lt
    have start := mirrors.within.total_nonneg
    rw [grown, ← mirrors.allocated]
    rw [Option.getD_some, ← mirrors.allocated] at room
    change 0 ≤ credits p.nodeLeases at start
    rw [← mirrors.allocated] at start
    rw [Words.toInt_add_of_fits (by omega) (by omega)]
    omega
  · intro marked
    rw [plain] at marked
    cases marked

/-- A holder that leaves takes its credits out of both pools. -/
theorem Mirrors.released (mirrors : Mirrors ns limit quota p) {nodeID : String} {leased : Int64}
    (present : p.nodeLeases.lookup nodeID = some leased) (plain : (isProcSuffix ns).2 = false) {status : ObjectQuotaStatus}
    (stored : status.fdAllocations = p.nodeLeases.erase nodeID) (resourceVersion : Nat) :
    Mirrors ns limit { quota with status, resourceVersion } { p with
      allocatedCredits := max 0 (p.allocatedCredits - leased)
      nodeLeases := p.nodeLeases.erase nodeID } := by
  refine ⟨mirrors.sameNs, mirrors.sameName, mirrors.limited, mirrors.total, stored.symm, mirrors.within.erase nodeID, ?_, ?_⟩
  · have parts := total_erase Int64.toInt p.nodeLeases nodeID
    simp only [Holdings.held, present, Option.elim_some] at parts
    have others := (mirrors.within.erase nodeID).total_nonneg
    have positive := mirrors.within.lookup_positive present
    have allocated := mirrors.allocated
    have bound := mirrors.within.bounded
    have fits := limit.toInt_lt
    rw [Option.getD_some] at bound
    unfold credits at allocated
    change (max 0 (p.allocatedCredits - leased)).toInt = Holdings.total Int64.toInt (p.nodeLeases.erase nodeID)
    rw [Words.toInt_max, Words.toInt_sub_of_fits (by omega) (by omega), Int64.toInt_zero]
    omega
  · intro marked
    rw [plain] at marked
    cases marked

end fake

section quotas
variable {world : Cluster} {quota : ObjectQuota}

theorem single_quota (single : world.quotas = [quota]) (ns name : String) :
    world.quota ns name = if quota.ns = ns ∧ quota.name = name then some quota else none := by
  unfold Cluster.quota
  rw [single, List.find?_singleton]
  simp only [decide_eq_true_eq]

theorem single_commitStatus (single : world.quotas = [quota]) (writer : Writer) (status : ObjectQuotaStatus) :
    (world.commitStatus writer { quota with status }).quotas =
      [{ quota with status, resourceVersion := world.revision + 1 }] := by
  simp [Cluster.commitStatus, single]

theorem Mirrors.found {ns : String} {limit : Int64} {p : FakePool} (mirrors : Mirrors ns limit quota p)
    (single : world.quotas = [quota]) : world.quota ns ns = some quota := by
  rw [single_quota single, if_pos ⟨mirrors.sameNs, mirrors.sameName⟩]

end quotas

section step
variable {ns : String} {limit : Int64} {world : Cluster} {f : FakeLeaseManager}

theorem marked_missing {quota : ObjectQuota} (single : world.quotas = [quota]) (sameNs : quota.ns = ns)
    (marked : (isProcSuffix ns).2 = true) : world.quota (isProcSuffix ns).1 (isProcSuffix ns).1 = none := by
  rw [single_quota single, if_neg]
  intro ⟨here, _⟩
  have split := (isProcSuffix_split marked).2
  rw [← here, sameNs] at split
  exact append_marker_ne ns split.symm

/-- What a request that asks once makes of both managers. -/
theorem requestLease_same (mirrored : Mirrored ns limit world f) (nodeID : String) (requested : Int64)
    (once : LeaserCall.AsksOnce ns world (.requestLease nodeID requested)) :
    (LeaserCall.real ns world (.requestLease nodeID requested)).1 = (LeaserCall.fake ns f (.requestLease nodeID requested)).1 ∧
      Mirrored ns limit (LeaserCall.real ns world (.requestLease nodeID requested)).2
        (LeaserCall.fake ns f (.requestLease nodeID requested)).2 := by
  obtain ⟨quota, p, single, pooled, mirrors⟩ := mirrored
  obtain ⟨plain, once⟩ := once
  let m := newK8sLeaseManager nodeID 1000
  have nonneg : 0 ≤ limit.toInt := Int.le_trans mirrors.within.total_nonneg mirrors.within.bounded
  have found := mirrors.found single
  have decodes : Decodes ns .fd ns := Prod.ext (isProcSuffix_false plain) plain
  have answers := smooth_requestLease ⟨nodeID, some m⟩ m decodes requested world
  simp only [found] at answers
  have once := once quota found
  rw [mirrors.limited, Option.getD_some, ← mirrors.leases] at once
  have faked := mirrors.fake_requestLease pooled nodeID requested
  simp only [LeaserCall.real, LeaserCall.fake, faked]
  unfold Answers at answers
  simp only [ObjectQuotaStatus.allocations, ← mirrors.leases] at answers
  cases held : (p.nodeLeases.lookup m.nodeID).filter (0 < ·) with
  | some existing =>
    rw [held] at answers
    have present : p.nodeLeases.lookup nodeID = some existing := (Option.filter_eq_some_iff.mp held).1
    have member : nodeID ∈ p.nodeLeases := AList.lookup_isSome.mp (by rw [present]; rfl)
    have refused := m.grant_full mirrors.within nonneg (once member) nodeID requested
    rw [refused]
    refine ⟨?_, quota, p, answers.2.quotas.trans single, pooled, mirrors⟩
    rw [present, Option.getD_some]
    exact congrArg (fun answer : Except LeaseError Int64 => Returned.granted answer.toOption) answers.1
  | none =>
    rw [held] at answers
    have fresh : nodeID ∉ p.nodeLeases := Ledger.fresh_notMem mirrors.within held
    have shared := m.requested_allocations .fd quota nodeID requested
    simp only [ObjectQuotaStatus.allocations, ObjectQuotaSpec.limit, ← mirrors.leases, mirrors.limited] at shared
    rcases (m.grant_spec mirrors.within nodeID requested).2 with ⟨refused, _⟩ | ⟨granted, given, spec⟩
    · rw [refused, Option.map_none, Option.map_eq_none_iff] at shared
      have unasked : m.requested .fd quota m.nodeID requested = none := shared
      rw [unasked] at answers
      rw [refused]
      refine ⟨?_, quota, p, answers.2.quotas.trans single, pooled, mirrors⟩
      exact congrArg (fun answer : Except LeaseError Int64 => Returned.granted answer.toOption) answers.1
    · rw [given, Option.map_some, Option.map_eq_some_iff] at shared
      obtain ⟨status, computed, stored⟩ := shared
      have asked : m.requested .fd quota m.nodeID requested = some status := computed
      rw [asked] at answers
      rw [given]
      simp only [stored] at answers
      refine ⟨congrArg (fun answer : Except LeaseError Int64 => Returned.granted answer.toOption) answers.1, ?_⟩
      exact ⟨_, _, answers.2.quotas.trans (single_commitStatus single _ status), Function.update_self ..,
        mirrors.granted fresh spec plain stored _⟩

/-- A request with the marker fails on the real manager, and one for more credits gets them
from the fake one only. -/
theorem requestLease_apart (mirrored : Mirrored ns limit world f) (nodeID : String) (requested : Int64)
    (again : ¬ LeaserCall.AsksOnce ns world (.requestLease nodeID requested)) :
    (LeaserCall.real ns world (.requestLease nodeID requested)).1 ≠ (LeaserCall.fake ns f (.requestLease nodeID requested)).1 := by
  obtain ⟨quota, p, single, pooled, mirrors⟩ := mirrored
  let m := newK8sLeaseManager nodeID 1000
  have faked := mirrors.fake_requestLease pooled nodeID requested
  simp only [LeaserCall.real, LeaserCall.fake, faked]
  intro same
  cases plain : (isProcSuffix ns).2 with
  | true =>
    have decodes : Decodes ns .proc (isProcSuffix ns).1 := Prod.ext rfl plain
    have answers := smooth_requestLease ⟨nodeID, some m⟩ m decodes requested world
    simp only [marked_missing single mirrors.sameNs plain] at answers
    have failed : (Action.exec ⟨nodeID, some m⟩ smooth (m.requestLease ns nodeID requested) world).1.toOption = none :=
      congrArg (·.1.toOption) answers
    have refused := (Returned.granted.inj same).symm.trans failed
    split at refused <;> cases refused
  | false =>
    have found := mirrors.found single
    have decodes : Decodes ns .fd ns := Prod.ext (isProcSuffix_false plain) plain
    have answers := smooth_requestLease ⟨nodeID, some m⟩ m decodes requested world
    simp only [found] at answers
    have holds : nodeID ∈ p.nodeLeases ∧ credits p.nodeLeases < limit.toInt := by
      by_contra never
      apply again
      refine ⟨plain, fun other there member => ?_⟩
      obtain rfl := Option.some.inj (found.symm.trans there)
      rw [mirrors.limited, Option.getD_some, ← mirrors.leases]
      rw [← mirrors.leases] at member
      by_contra room
      exact never ⟨member, Int.not_le.mp room⟩
    obtain ⟨member, room⟩ := holds
    obtain ⟨existing, present⟩ := Option.isSome_iff_exists.mp (AList.lookup_isSome.mpr member)
    have positive := mirrors.within.lookup_positive present
    have held : ((quota.status.allocations .fd).lookup m.nodeID).filter (0 < ·) = some existing := by
      apply Option.filter_eq_some_iff.mpr
      refine ⟨by rw [mirrors.leases] at present; exact present, ?_⟩
      rw [decide_eq_true_eq, Int64.lt_iff_toInt_lt, Int64.toInt_zero]
      omega
    unfold Answers at answers
    rw [held] at answers
    rcases (m.grant_spec mirrors.within nodeID requested).2 with ⟨_, full⟩ | ⟨granted, given, spec⟩
    · rw [Option.getD_some] at full
      omega
    · have answered : (Action.exec ⟨nodeID, some m⟩ smooth (m.requestLease ns nodeID requested) world).1.toOption = some existing :=
        congrArg (fun answer : Except LeaseError Int64 => answer.toOption) answers.1
      have more := answered.symm.trans (Returned.granted.inj same)
      rw [given] at more
      simp only [spec.credited, present, AList.lookup_insert, Option.getD_some] at more
      have unchanged : existing = existing + granted.grant := Option.some.inj more
      have nothing := congrArg (· - existing) unchanged
      simp only [Int64.add_comm existing, Int64.add_sub_cancel, Int64.sub_self] at nothing
      have something := spec.positive
      rw [← nothing, Int64.toInt_zero] at something
      omega

theorem releaseLease_same (mirrored : Mirrored ns limit world f) (nodeID : String) :
    (LeaserCall.real ns world (.releaseLease nodeID)).1 = (LeaserCall.fake ns f (.releaseLease nodeID)).1 ∧
      Mirrored ns limit (LeaserCall.real ns world (.releaseLease nodeID)).2 (LeaserCall.fake ns f (.releaseLease nodeID)).2 := by
  obtain ⟨quota, p, single, pooled, mirrors⟩ := mirrored
  let m := newK8sLeaseManager nodeID 1000
  simp only [LeaserCall.real, LeaserCall.fake, FakeLeaseManager.releaseLease, pooled]
  cases plain : (isProcSuffix ns).2 with
  | true =>
    have decodes : Decodes ns .proc (isProcSuffix ns).1 := Prod.ext rfl plain
    have answers := smooth_releaseLease ⟨nodeID, some m⟩ m decodes nodeID world
    simp only [marked_missing single mirrors.sameNs plain] at answers
    rw [answers, mirrors.marked plain]
    exact ⟨rfl, quota, p, single, pooled, mirrors⟩
  | false =>
    have found := mirrors.found single
    have decodes : Decodes ns .fd ns := Prod.ext (isProcSuffix_false plain) plain
    have answers := smooth_releaseLease ⟨nodeID, some m⟩ m decodes nodeID world
    simp only [found, released, releasedFD, ObjectQuotaStatus.allocations, ← mirrors.leases] at answers
    cases present : p.nodeLeases.lookup nodeID with
    | none =>
      rw [present] at answers
      obtain ⟨nothing, same⟩ := answers
      exact ⟨congrArg Returned.released nothing, quota, p, same.quotas.trans single, pooled, mirrors⟩
    | some leased =>
      rw [present] at answers
      simp only [Checked.bind_value, Checked.pure_value] at answers
      obtain ⟨gave, same⟩ := answers
      exact ⟨congrArg Returned.released gave, _, _, same.quotas.trans (single_commitStatus single _ _), Function.update_self ..,
        mirrors.released present plain rfl _⟩

theorem getStatus_same (mirrored : Mirrored ns limit world f) :
    (LeaserCall.real ns world .getStatus).1 = (LeaserCall.fake ns f .getStatus).1 ∧
      Mirrored ns limit (LeaserCall.real ns world .getStatus).2 (LeaserCall.fake ns f .getStatus).2 := by
  obtain ⟨quota, p, single, pooled, mirrors⟩ := mirrored
  have found := mirrors.found single
  have read : Action.exec ⟨"", none⟩ smooth (K8sLeaseManager.getStatus ns) world =
      (some ⟨limit, (Checked.sum (amounts p.nodeLeases)).value, p.nodeLeases⟩, world) := by
    unfold K8sLeaseManager.getStatus
    rw [Action.exec_bind, Action.exec_perform]
    simp only [Cluster.serve, smooth, Option.isSome_none, Bool.false_eq_true, ↓reduceIte, found, mirrors.limited,
      mirrors.leases, Option.getD_some, Action.exec_return]
  simp only [LeaserCall.real, LeaserCall.fake, read, FakeLeaseManager.getStatus, pooled, Option.map_some, mirrors.total,
    mirrors.summed]
  exact ⟨trivial, quota, p, single, pooled, mirrors⟩

end step

/-- A cluster with one quota that carries its namespace's name and has an empty status. -/
structure Unrequested (ns : String) (limit : Int64) (world : Cluster) : Prop where
  single : ∃ quota, world.quotas = [quota] ∧ quota.ns = ns ∧ quota.name = ns ∧
    quota.spec.fileDescriptors = some limit ∧ quota.status = .empty

theorem Unrequested.mirrored {ns : String} {limit : Int64} {world : Cluster} (unrequested : Unrequested ns limit world)
    (nonneg : 0 ≤ limit.toInt) :
    Mirrored ns limit world (FakeLeaseManager.newFakeLeaseManager.setGlobalPool ns limit) := by
  obtain ⟨quota, single, sameNs, sameName, limited, empty⟩ := unrequested.single
  refine ⟨quota, ⟨limit, 0, ∅⟩, single, Function.update_self .., ?_⟩
  exact ⟨sameNs, sameName, limited, rfl, by rw [empty]; rfl, Holdings.Within.empty nonneg, rfl, fun _ => rfl⟩

def teamCluster : Cluster := .empty [⟨"team", "team", 0, ⟨some 1000, none, none⟩, .empty⟩]

theorem teamCluster_unrequested : Unrequested "team" 1000 teamCluster := ⟨_, rfl, rfl, rfl, rfl, rfl⟩

end QuotaManager
