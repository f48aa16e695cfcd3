import QuotaManager.Proofs.Sequential
import QuotaManager.Proofs.StatusUpdate

/-! What a request for credits and a release do when they run alone: nothing, or one
update of the status of the quota that the lease key stands for. -/

namespace QuotaManager
open Enforcer

/-- What a lease key stands for. -/
def Decodes (key : String) (resource : Resource) (ns : String) : Prop :=
  isProcSuffix key = (ns, decide (resource = .proc))

namespace K8sLeaseManager
variable (m : K8sLeaseManager)

def requested (resource : Resource) (quota : ObjectQuota) (nodeID : String) (requested : Int64) :
    Option ObjectQuotaStatus :=
  match resource with
  | .fd => (m.requestedFD quota nodeID requested).value
  | .proc => (m.requestedProc quota nodeID requested).value

theorem requested_allocations (resource : Resource) (quota : ObjectQuota) (nodeID : String) (requested : Int64) :
    (m.requested resource quota nodeID requested).map (·.allocations resource) =
      (m.grant (quota.status.allocations resource) (quota.spec.limit resource) nodeID requested).value.map (·.allocations) := by
  cases resource with
  | fd =>
    simp only [K8sLeaseManager.requested, requestedFD, Checked.bind_value, ObjectQuotaStatus.allocations, ObjectQuotaSpec.limit]
    cases (m.grant quota.status.fdAllocations quota.spec.fileDescriptors nodeID requested).value <;> rfl
  | proc =>
    simp only [K8sLeaseManager.requested, requestedProc, Checked.bind_value, ObjectQuotaStatus.allocations, ObjectQuotaSpec.limit]
    cases (m.grant quota.status.procAllocations quota.spec.processes nodeID requested).value <;> rfl

end K8sLeaseManager

def released (resource : Resource) (quota : ObjectQuota) (nodeID : String) : Option ObjectQuotaStatus :=
  match resource with
  | .fd => (releasedFD quota nodeID).value
  | .proc => (releasedProc quota nodeID).value

theorem released_allocations (resource : Resource) (quota : ObjectQuota) (nodeID : String) :
    (released resource quota nodeID).map (·.allocations resource) =
      ((quota.status.allocations resource).lookup nodeID).map fun _ => (quota.status.allocations resource).erase nodeID := by
  cases resource with
  | fd =>
    simp only [released, releasedFD, ObjectQuotaStatus.allocations]
    cases quota.status.fdAllocations.lookup nodeID <;> rfl
  | proc =>
    simp only [released, releasedProc, ObjectQuotaStatus.allocations]
    cases quota.status.procAllocations.lookup nodeID <;> rfl

def Enforcer.Resource.requester : Resource → Writer
  | .fd => .requestFD
  | .proc => .requestProc

def Enforcer.Resource.releaser : Resource → Writer
  | .fd => .releaseFD
  | .proc => .releaseProc

theorem SameQuotas.trans {first second third : Cluster} (one : SameQuotas first second) (two : SameQuotas second third) :
    SameQuotas first third :=
  ⟨two.quotas.trans one.quotas, two.writers.trans one.writers, Nat.le_trans one.revision two.revision⟩

/-- Every request but a status update leaves the quotas alone. -/
def Request.OffQuotas (request : Request) : Prop := ∀ writer quota, request ≠ .updateStatus writer quota

def Request.writesStatus : Request → Bool
  | .updateStatus _ _ => true
  | _ => false

theorem Request.OffQuotas.of_reads {request : Request} (reads : request.writesStatus = false) : request.OffQuotas := by
  intro writer quota same
  rw [same] at reads
  cases reads

theorem sameQuotas_exec {α : Type} {s : Syncer} {outcome : Request → Option Nat} {action : Action α}
    (asks : action.Asks Request.OffQuotas) (world : Cluster) : SameQuotas world (action.exec s outcome world).2 := by
  apply asks.exec_kept (SameQuotas world) _ (.refl world)
  intro later request off kept
  rcases serve_quotas later s request (outcome request) with same | ⟨writer, quota, updates, _⟩
  · exact kept.trans same
  · exact absurd updates (off writer quota)

theorem ensureLease_offQuotas (m : K8sLeaseManager) (ns : String) : (m.ensureLease ns).Asks Request.OffQuotas := by
  refine ⟨.of_reads rfl, fun _ => ⟨.of_reads rfl, fun existing => ?_⟩⟩
  cases existing with
  | none => exact ⟨.of_reads rfl, fun _ => trivial⟩
  | some lease => exact ⟨.of_reads rfl, fun _ => trivial⟩

theorem deleteLease_offQuotas (m : K8sLeaseManager) (ns : String) : (m.deleteLease ns).Asks Request.OffQuotas :=
  ⟨.of_reads rfl, fun _ => trivial⟩

section exec
variable (s : Syncer) (outcome : Request → Option Nat) (m : K8sLeaseManager)

theorem exec_updateStatus (writer : Writer) (quota : ObjectQuota) (world : Cluster) :
    let served := Action.exec s outcome (perform (.updateStatus writer quota)) world
    served.1 = false ∧ served.2 = world ∨ served.1 = true ∧ Commits world writer quota served.2 :=
  serve_updateStatus world s writer quota (outcome (.updateStatus writer quota))

/-- Nobody else writes, so an update that succeeds is taken. -/
theorem smooth_updateStatus (writer : Writer) {quota : ObjectQuota} {world : Cluster} {ns : String}
    (found : world.quota ns ns = some quota) (status : ObjectQuotaStatus) :
    let served := Action.exec s smooth (perform (.updateStatus writer { quota with status })) world
    served.1 = true ∧ SameQuotas (world.commitStatus writer { quota with status }) served.2 := by
  obtain ⟨rfl, sameName⟩ := Cluster.quota_named found
  have current : world.quota quota.ns quota.name = some quota := sameName ▸ found
  change (world.serve s (.updateStatus writer { quota with status }) none).1 = true ∧
    SameQuotas _ (world.serve s (.updateStatus writer { quota with status }) none).2
  simp only [Cluster.serve, current, and_self, ↓reduceIte, true_and]
  split
  · exact ⟨rfl, rfl, Nat.le_refl _⟩
  · exact .refl _

theorem exec_beat {α : Type} (ns : String) (value : α) (world : Cluster) :
    let ended := Action.exec s outcome (do m.ensureLease ns; return value) world
    ended.1 = value ∧ SameQuotas world ended.2 :=
  ⟨by rw [Action.exec_bind]; rfl, by rw [Action.exec_bind]; exact sameQuotas_exec (ensureLease_offQuotas m ns) world⟩

/-- What a request for credits or a release may do to the quotas. -/
def Updates (ns : String) (writer : Writer) (makes : ObjectQuota → ObjectQuotaStatus → Prop) (before after : Cluster) : Prop :=
  SameQuotas before after ∨ ∃ quota status, before.quota ns ns = some quota ∧ makes quota status ∧
    SameQuotas (before.commitStatus writer { quota with status }) after

/-- An update after which the quotas are left alone, whether it is taken or refused. -/
theorem exec_commits {α : Type} {ns : String} {writer : Writer} {makes : ObjectQuota → ObjectQuotaStatus → Prop}
    {quota : ObjectQuota} {status : ObjectQuotaStatus} {world : Cluster} (found : world.quota ns ns = some quota)
    (computed : makes quota status) {next : Bool → Action α}
    (after : ∀ answer later, SameQuotas later (Action.exec s outcome (next answer) later).2) :
    Updates ns writer makes world
      (Action.exec s outcome (perform (.updateStatus writer { quota with status }) >>= next) world).2 := by
  rw [Action.exec_bind]
  rcases exec_updateStatus s outcome writer { quota with status } world with ⟨refused, same⟩ | ⟨taken, commits⟩
  · rw [refused, same]
    exact .inl (after false world)
  · rw [taken]
    exact .inr ⟨quota, status, found, computed, commits.written.trans (after true _)⟩

theorem exec_requestFD {quota : ObjectQuota} {ns : String} {world : Cluster} (found : world.quota ns ns = some quota)
    (nodeID : String) (requested : Int64) :
    Updates ns .requestFD (fun quota status => m.requested .fd quota nodeID requested = some status) world
      (Action.exec s outcome (m.requestFD quota ns nodeID requested) world).2 := by
  unfold K8sLeaseManager.requestFD
  split
  · exact .inl ((exec_beat s outcome m ns _ world).2)
  · split
    · exact .inl ((exec_beat s outcome m ns _ world).2)
    next status computed =>
      apply exec_commits s outcome found computed
      intro answer later
      cases answer with
      | false => exact .refl later
      | true => exact (exec_beat s outcome m ns _ later).2

theorem exec_requestProc {quota : ObjectQuota} {ns : String} {world : Cluster} (found : world.quota ns ns = some quota)
    (nodeID : String) (requested : Int64) :
    Updates ns .requestProc (fun quota status => m.requested .proc quota nodeID requested = some status) world
      (Action.exec s outcome (m.requestProc quota ns nodeID requested) world).2 := by
  unfold K8sLeaseManager.requestProc
  split
  · exact .inl (.refl world)
  · split
    · exact .inl (.refl world)
    next status computed =>
      apply exec_commits s outcome found computed
      intro answer later
      cases answer <;> exact .refl later

theorem exec_requestLease {key ns : String} {resource : Resource} (decodes : Decodes key resource ns) (nodeID : String)
    (requested : Int64) (world : Cluster) :
    Updates ns resource.requester (fun quota status => m.requested resource quota nodeID requested = some status) world
      (Action.exec s outcome (m.requestLease key nodeID requested) world).2 := by
  unfold Decodes at decodes
  unfold K8sLeaseManager.requestLease
  rw [decodes]
  dsimp only
  split
  · exact .inl (.refl world)
  · rw [Action.exec_bind, Action.exec_perform]
    simp only [Cluster.serve]
    split
    · exact .inl (.refl world)
    next quota read =>
      have found : world.quota ns ns = some quota := by
        split at read
        · cases read
        · exact read
      cases resource with
      | fd => exact exec_requestFD s outcome m found nodeID requested
      | proc => exact exec_requestProc s outcome m found nodeID requested

theorem exec_releaseLease {key ns : String} {resource : Resource} (decodes : Decodes key resource ns) (nodeID : String)
    (world : Cluster) :
    Updates ns resource.releaser (fun quota status => released resource quota nodeID = some status) world
      (Action.exec s outcome (m.releaseLease key nodeID) world).2 := by
  unfold Decodes at decodes
  unfold K8sLeaseManager.releaseLease
  rw [decodes]
  dsimp only
  rw [Action.exec_bind, Action.exec_perform]
  simp only [Cluster.serve]
  split
  · exact .inl (.refl world)
  next quota read =>
    have found : world.quota ns ns = some quota := by
      split at read
      · cases read
      · exact read
    cases resource with
    | fd =>
      simp only [reduceCtorEq, decide_false, Bool.false_eq_true, ↓reduceIte, K8sLeaseManager.releaseFD]
      split
      · exact .inl (.refl world)
      next status computed =>
        apply exec_commits s outcome found computed
        intro answer later
        cases answer with
        | false => exact .refl later
        | true =>
          rw [Action.exec_bind]
          exact sameQuotas_exec (deleteLease_offQuotas m ns) later
    | proc =>
      simp only [decide_true, ↓reduceIte, K8sLeaseManager.releaseProc]
      split
      · exact .inl (.refl world)
      next status computed =>
        apply exec_commits s outcome found computed
        intro answer later
        cases answer <;> exact .refl later

end exec

section smooth
variable (s : Syncer) (m : K8sLeaseManager)

/-- The answer to a request of the manager's own node, and what it makes of the quotas:
credits that are there are returned, an exhausted pool gives none, else a grant is stored. -/
def Answers (resource : Resource) (quota : ObjectQuota) (requested : Int64) (world : Cluster)
    (ended : Except LeaseError Int64 × Cluster) : Prop :=
  match ((quota.status.allocations resource).lookup m.nodeID).filter (0 < ·) with
  | some existing => ended.1 = .ok existing ∧ SameQuotas world ended.2
  | none =>
    match m.requested resource quota m.nodeID requested with
    | none =>
      ended.1 = .ok (((quota.status.allocations resource).lookup m.nodeID).getD 0) ∧ SameQuotas world ended.2
    | some status =>
      ended.1 = .ok (((status.allocations resource).lookup m.nodeID).getD 0) ∧
        SameQuotas (world.commitStatus resource.requester { quota with status }) ended.2

theorem smooth_requestFD {quota : ObjectQuota} {ns : String} {world : Cluster} (found : world.quota ns ns = some quota)
    (requested : Int64) :
    Answers m .fd quota requested world (Action.exec s smooth (m.requestFD quota ns m.nodeID requested) world) := by
  unfold Answers K8sLeaseManager.requestFD
  simp only [ObjectQuotaStatus.allocations, K8sLeaseManager.requested]
  cases held : (quota.status.fdAllocations.lookup m.nodeID).filter (0 < ·) with
  | some existing => exact exec_beat s smooth m ns _ world
  | none =>
    dsimp only
    cases computed : (m.requestedFD quota m.nodeID requested).value with
    | none => exact exec_beat s smooth m ns _ world
    | some status =>
      obtain ⟨taken, written⟩ := smooth_updateStatus s .requestFD found status
      simp only [Action.exec_bind, taken]
      have beat := exec_beat s smooth m ns (Except.ok (ε := LeaseError) ((status.fdAllocations.lookup m.nodeID).getD 0))
        (Action.exec s smooth (perform (.updateStatus .requestFD { quota with status })) world).2
      rw [Action.exec_bind] at beat
      exact ⟨beat.1, written.trans beat.2⟩

theorem smooth_requestProc {quota : ObjectQuota} {ns : String} {world : Cluster} (found : world.quota ns ns = some quota)
    (requested : Int64) :
    Answers m .proc quota requested world (Action.exec s smooth (m.requestProc quota ns m.nodeID requested) world) := by
  unfold Answers K8sLeaseManager.requestProc
  simp only [ObjectQuotaStatus.allocations, K8sLeaseManager.requested]
  cases held : (quota.status.procAllocations.lookup m.nodeID).filter (0 < ·) with
  | some existing => exact ⟨rfl, .refl world⟩
  | none =>
    dsimp only
    cases computed : (m.requestedProc quota m.nodeID requested).value with
    | none => exact ⟨rfl, .refl world⟩
    | some status =>
      obtain ⟨taken, written⟩ := smooth_updateStatus s .requestProc found status
      simp only [Action.exec_bind, taken]
      exact ⟨rfl, written⟩

/-- The spec of a request that runs alone with every call succeeding. -/
theorem smooth_requestLease {key ns : String} {resource : Resource} (decodes : Decodes key resource ns) (requested : Int64)
    (world : Cluster) :
    let ended := Action.exec s smooth (m.requestLease key m.nodeID requested) world
    match world.quota ns ns with
    | none => ended = (.error (.getQuota ns), world)
    | some quota => Answers m resource quota requested world ended := by
  unfold Decodes at decodes
  unfold K8sLeaseManager.requestLease
  rw [decodes]
  dsimp only
  rw [if_neg (by simp), Action.exec_bind, Action.exec_perform]
  simp only [Cluster.serve, smooth, Option.isSome_none, Bool.false_eq_true, ↓reduceIte]
  cases found : world.quota ns ns with
  | none => rfl
  | some quota =>
    cases resource with
    | fd => exact smooth_requestFD s m found requested
    | proc => exact smooth_requestProc s m found requested

/-- The spec of a release that runs alone with every call succeeding. -/
theorem smooth_releaseLease {key ns : String} {resource : Resource} (decodes : Decodes key resource ns) (nodeID : String)
    (world : Cluster) :
    let ended := Action.exec s smooth (m.releaseLease key nodeID) world
    match world.quota ns ns with
    | none => ended = (0, world)
    | some quota =>
      match released resource quota nodeID with
      | none => ended.1 = 0 ∧ SameQuotas world ended.2
      | some status =>
        ended.1 = ((quota.status.allocations resource).lookup nodeID).getD 0 ∧
          SameQuotas (world.commitStatus resource.releaser { quota with status }) ended.2 := by
  unfold Decodes at decodes
  unfold K8sLeaseManager.releaseLease
  rw [decodes]
  dsimp only
  rw [Action.exec_bind, Action.exec_perform]
  simp only [Cluster.serve, smooth, Option.isSome_none, Bool.false_eq_true, ↓reduceIte]
  cases found : world.quota ns ns with
  | none => rfl
  | some quota =>
    cases resource with
    | fd =>
      simp only [reduceCtorEq, decide_false, Bool.false_eq_true, ↓reduceIte, K8sLeaseManager.releaseFD, released]
      cases computed : (releasedFD quota nodeID).value with
      | none => exact ⟨rfl, .refl world⟩
      | some status =>
        obtain ⟨taken, written⟩ := smooth_updateStatus s .releaseFD found status
        simp only [Action.exec_bind, taken]
        refine ⟨rfl, written.trans ?_⟩
        exact sameQuotas_exec (deleteLease_offQuotas m ns) _
    | proc =>
      simp only [decide_true, ↓reduceIte, K8sLeaseManager.releaseProc, released]
      cases computed : (releasedProc quota nodeID).value with
      | none => exact ⟨rfl, .refl world⟩
      | some status =>
        obtain ⟨taken, written⟩ := smooth_updateStatus s .releaseProc found status
        simp only [Action.exec_bind, taken]
        exact ⟨rfl, written⟩

end smooth

theorem K8sLeaseManager.requestLease_wrong {s : Syncer} (m : K8sLeaseManager) {outcome : Request → Option Nat} {key nodeID : String}
    (other : nodeID ≠ m.nodeID) {requested : Int64} {world : Cluster} :
    Action.exec s outcome (m.requestLease key nodeID requested) world = (.error (.wrongNode m.nodeID nodeID), world) := by
  unfold K8sLeaseManager.requestLease
  dsimp only
  rw [if_pos other]
  rfl

/-- The limit that a sync goes on with, from the answer to its request. -/
theorem Syncer.exec_effectiveLimit {s : Syncer} {leaser : K8sLeaseManager} (leased : s.leaser = some leaser)
    (outcome : Request → Option Nat) (resource : Resource) (ns : String) (limit : Int64) (batchSize : Option Int64)
    (world : Cluster) :
    let asked := Action.exec s outcome (leaser.requestLease (leaseKey resource ns) s.nodeID (batchSize.getD 0)) world
    Action.exec s outcome (s.effectiveLimit resource ns limit batchSize) world =
      (match asked.1 with
        | .error _ => limit
        | .ok granted => if granted > 0 then granted else limit, asked.2) := by
  simp only [effectiveLimit, leased, Action.exec_bind]
  generalize Action.exec s outcome (leaser.requestLease (leaseKey resource ns) s.nodeID (batchSize.getD 0)) world = asked
  obtain ⟨answer, world⟩ := asked
  cases answer <;> rfl

end QuotaManager
