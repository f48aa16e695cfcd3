import QuotaManager.Syncer
import QuotaManager.Proofs.Credits

/-! The update protocol. Every status update is computed from a quota that the same
program has read, and the API server takes it only if nobody else has updated the
quota since. So an update that is taken acts on the current status, however the
steps of the programs are interleaved. -/

namespace QuotaManager
open Enforcer

abbrev Seen := Exchange Cluster Request Request.Reply

/-- An update was computed from a quota that was read. -/
def Justified (past : List Seen) (writer : Writer) (quota : ObjectQuota) : Prop :=
  ∃ state ns read, (⟨state, .getQuota ns ns, some read⟩ : Seen) ∈ past ∧
    quota = { read with status := quota.status } ∧ Writes read writer quota.status

/-- A reclaim reads the quota, lists the leases, reads the clock and updates, with no
other request in between. -/
def Reclaims (owner : Syncer) (past : List Seen) (quota : ObjectQuota) : Prop :=
  ∃ clocked now listed leases state ns read older,
    past = (⟨clocked, .clock, now⟩ : Seen) :: ⟨listed, .listLeases ns, some leases⟩ :: ⟨state, .getQuota ns ns, some read⟩ :: older ∧
    quota = { read with status := quota.status } ∧
    (reclaimed read owner.identity (activeNodes leases now)).value = some quota.status

/-- What the programs ask: updates are justified, a counter is written back as it was
looked up but for its budget, and mappings are written for pods that were listed or
cgroups that were found, a scan's with a snapshot of its own. -/
def Rule (found : String → List CgroupInfo → Prop) (owner : Syncer) (past : List Seen) : Request → Prop
  | .updateStatus writer quota => Justified past writer quota ∧ (writer = .reclaim → Reclaims owner past quota)
  | .updateNsCounter resource nsKey lease => ∃ state existing limit,
      (⟨state, .lookupNsCounter resource nsKey, existing⟩ : Seen) ∈ past ∧ lease = renewedLease existing limit
  | .mapPods _ ns pods => ∃ state, (⟨state, .listPods ns, some pods⟩ : Seen) ∈ past
  | .mapScanned ns existing cInfos => (∃ state, (⟨state, .tracked ns, some existing⟩ : Seen) ∈ past) ∧ found ns cInfos
  | _ => True

section obeys
variable {found : String → List CgroupInfo → Prop} {s : Syncer} {m : K8sLeaseManager} {past : List Seen}

theorem ensureLease_obeys (m : K8sLeaseManager) (ns : String) (past : List Seen) :
    (m.ensureLease ns).Obeys (Rule found s) (fun _ later => past <:+ later) past := by
  refine ⟨trivial, fun _ now => ⟨trivial, fun _ existing => ?_⟩⟩
  cases existing with
  | none => exact ⟨trivial, fun _ _ => ⟨[_, _, _], rfl⟩⟩
  | some existing => exact ⟨trivial, fun _ _ => ⟨[_, _, _], rfl⟩⟩

theorem requestFD_obeys {quota : ObjectQuota} {base : String} (ns nodeID : String) (requested : Int64) {state : Cluster}
    (read : (⟨state, .getQuota base base, some quota⟩ : Seen) ∈ past) :
    (m.requestFD quota ns nodeID requested).Obeys (Rule found s) (fun _ _ => True) past := by
  unfold K8sLeaseManager.requestFD
  split
  · exact (ensureLease_obeys m ns past).bind fun _ _ _ => trivial
  next fresh =>
    split
    · exact (ensureLease_obeys m ns past).bind fun _ _ _ => trivial
    next status computed =>
      refine ⟨⟨⟨state, base, quota, read, rfl, .requestFD m nodeID requested fresh computed⟩, nofun⟩, ?_⟩
      intro _ committed
      cases committed with
      | false => trivial
      | true => exact (ensureLease_obeys m ns _).bind fun _ _ _ => trivial

theorem requestProc_obeys {quota : ObjectQuota} {base : String} (ns nodeID : String) (requested : Int64) {state : Cluster}
    (read : (⟨state, .getQuota base base, some quota⟩ : Seen) ∈ past) :
    (m.requestProc quota ns nodeID requested).Obeys (Rule found s) (fun _ _ => True) past := by
  unfold K8sLeaseManager.requestProc
  split
  · trivial
  next fresh =>
    split
    · trivial
    next status computed =>
      refine ⟨⟨⟨state, base, quota, read, rfl, .requestProc m nodeID requested fresh computed⟩, nofun⟩, ?_⟩
      intro _ committed
      cases committed <;> trivial

theorem requestLease_obeys (m : K8sLeaseManager) (ns nodeID : String) (requested : Int64) (past : List Seen) :
    (m.requestLease ns nodeID requested).Obeys (Rule found s) (fun _ _ => True) past := by
  unfold K8sLeaseManager.requestLease
  simp only
  split
  · trivial
  · refine ⟨trivial, fun state reply => ?_⟩
    cases reply with
    | none => trivial
    | some quota =>
      simp only [Program.done_bind]
      split
      · exact requestProc_obeys _ _ _ List.mem_cons_self
      · exact requestFD_obeys _ _ _ List.mem_cons_self

theorem releaseLease_obeys (m : K8sLeaseManager) (ns nodeID : String) (past : List Seen) :
    (m.releaseLease ns nodeID).Obeys (Rule found s) (fun _ _ => True) past := by
  unfold K8sLeaseManager.releaseLease
  refine ⟨trivial, fun state reply => ?_⟩
  cases reply with
  | none => trivial
  | some quota =>
    simp only [Program.done_bind]
    split
    · unfold K8sLeaseManager.releaseProc
      split
      · trivial
      next status computed =>
        refine ⟨⟨⟨state, _, quota, List.mem_cons_self, rfl, .releaseProc nodeID computed⟩, nofun⟩, ?_⟩
        intro _ committed
        cases committed <;> trivial
    · unfold K8sLeaseManager.releaseFD
      split
      · trivial
      next status computed =>
        refine ⟨⟨⟨state, _, quota, List.mem_cons_self, rfl, .releaseFD nodeID computed⟩, nofun⟩, ?_⟩
        intro _ committed
        cases committed with
        | false => trivial
        | true => exact ⟨trivial, fun _ _ => trivial⟩

theorem reclaimExpiredLeases_obeys (own : s.leaser = some m) (ns : String) (past : List Seen) :
    (m.reclaimExpiredLeases ns).Obeys (Rule found s) (fun _ _ => True) past := by
  have identity : s.identity = m.nodeID := by simp only [Syncer.identity, own]
  unfold K8sLeaseManager.reclaimExpiredLeases
  refine ⟨trivial, fun state reply => ?_⟩
  cases reply with
  | none => trivial
  | some quota =>
    refine ⟨trivial, fun listed reply => ?_⟩
    cases reply with
    | none => trivial
    | some leases =>
      refine ⟨trivial, fun clocked now => ?_⟩
      simp only [Program.done_bind]
      split
      · trivial
      next status computed =>
        have seen : (⟨state, .getQuota ns ns, some quota⟩ : Seen) ∈
            (⟨clocked, .clock, now⟩ : Seen) :: ⟨listed, .listLeases ns, some leases⟩ :: ⟨state, .getQuota ns ns, some quota⟩ :: past :=
          List.mem_cons_of_mem _ (List.mem_cons_of_mem _ List.mem_cons_self)
        refine ⟨⟨⟨state, ns, quota, seen, rfl, .reclaim _ _ computed⟩, ?_⟩, ?_⟩
        · exact fun _ => ⟨clocked, now, listed, leases, state, ns, quota, past, rfl, rfl, by rw [identity]; exact computed⟩
        · intro _ committed
          cases committed <;> trivial

theorem renewAll_obeys (own : s.leaser = some m) (items : List ObjectQuota) (past : List Seen) :
    (m.renewAll items).Obeys (Rule found s) (fun _ _ => True) past := by
  induction items generalizing past with
  | nil => trivial
  | cons quota rest ih =>
    apply (ensureLease_obeys m quota.ns past).bind
    intro _ later _
    apply (reclaimExpiredLeases_obeys own quota.ns later).bind
    intro _ later _
    exact ih later

theorem sync_obeys (resource : Resource) (ns : String) (limit : Int64) (batchSize : Option Int64) :
    (s.sync resource ns limit batchSize).Obeys (Rule found s) (fun _ _ => True) [] := by
  have effective : (s.effectiveLimit resource ns limit batchSize).Obeys (Rule found s) (fun _ _ => True) [] := by
    unfold Syncer.effectiveLimit
    split
    · trivial
    · apply (requestLease_obeys _ _ _ _ _).bind
      intro granted _ _
      cases granted <;> trivial
  apply effective.bind
  intro limit later _
  refine ⟨trivial, fun _ written => ?_⟩
  cases written with
  | false => trivial
  | true =>
    refine ⟨trivial, fun state existing => ⟨⟨state, existing, limit, List.mem_cons_self, rfl⟩, fun _ written => ?_⟩⟩
    cases written with
    | false => trivial
    | true =>
      refine ⟨trivial, fun _ listed => ?_⟩
      cases listed with
      | none => trivial
      | some pods =>
        refine ⟨⟨_, List.mem_cons_self⟩, fun _ mapped => ?_⟩
        cases mapped <;> trivial

/-- Every operation keeps the rule. -/
theorem body_obeys (s : Syncer) (operation : Operation)
    (scanned : ∀ ns cInfos, operation = .scanAndMapCgroups ns cInfos → found ns cInfos) :
    (operation.body s).Obeys (Rule found s) (fun _ _ => True) [] := by
  cases operation with
  | syncNamespace ns limit batchSize => exact (sync_obeys .fd ns limit batchSize).bind fun _ _ _ => trivial
  | syncProcessNamespace ns limit batchSize => exact (sync_obeys .proc ns limit batchSize).bind fun _ _ _ => trivial
  | scanAndMapCgroups ns cInfos =>
    refine ⟨trivial, fun state existing => ?_⟩
    cases existing with
    | none => trivial
    | some existing => exact ⟨⟨⟨state, List.mem_cons_self⟩, scanned ns cInfos rfl⟩, fun _ _ => trivial⟩
  | requestLease ns nodeID requested =>
    simp only [Operation.body]
    split
    · trivial
    · exact (requestLease_obeys _ ns nodeID requested []).bind fun _ _ _ => trivial
  | releaseLease ns nodeID =>
    simp only [Operation.body]
    split
    · trivial
    · exact (releaseLease_obeys _ ns nodeID []).bind fun _ _ _ => trivial
  | reclaimExpiredLeases ns =>
    simp only [Operation.body]
    split
    · trivial
    next own => exact (reclaimExpiredLeases_obeys own ns []).bind fun _ _ _ => trivial
  | renewalTick =>
    simp only [Operation.body]
    split
    · trivial
    next own =>
      refine ⟨trivial, fun _ items => ?_⟩
      cases items with
      | none => trivial
      | some items => exact renewAll_obeys own items _

end obeys
end QuotaManager
