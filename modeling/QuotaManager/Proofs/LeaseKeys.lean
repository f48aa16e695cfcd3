import QuotaManager.Proofs.LeaseRequest
import QuotaManager.Proofs.SyncedLimits

/-! The credits that a sync and a removal of a namespace can reach. The lease key of
the process credits is decoded as it was encoded; the one of the descriptor credits is
the bare namespace, which a name that ends in the marker turns into somebody else's. -/

namespace QuotaManager
open Enforcer

def alphanumeric (char : Char) : Bool := char.isLower || char.isDigit

/-- A name that Kubernetes accepts for a namespace. -/
structure NamespaceName (ns : String) : Prop where
  letters : ∀ char ∈ ns.toList, alphanumeric char ∨ char = '-'
  first : ∃ char, ns.toList.head? = some char ∧ alphanumeric char
  last : ∃ char, ns.toList.getLast? = some char ∧ alphanumeric char

/-- No allocations were touched but those of one resource in one namespace. -/
def Outside (resource : Resource) (ns : String) (before after : Cluster) : Prop :=
  ∀ other key name, ¬ (other = resource ∧ key = ns) →
    (after.quota key name).map (·.status.allocations other) = (before.quota key name).map (·.status.allocations other)

/-- Two clusters that differ in the allocations outside one resource of one namespace,
and in heartbeats and versions, at most. -/
structure Alike (resource : Resource) (ns : String) (one two : Cluster) : Prop where
  nodes : one.nodes = two.nodes
  pods : one.pods = two.pods
  specs : ∀ key name, (one.quota key name).map (·.spec) = (two.quota key name).map (·.spec)
  allocations : ∀ name, (one.quota ns name).map (·.status.allocations resource) =
    (two.quota ns name).map (·.status.allocations resource)

/-- A sync of the resource and a release of its lease key neither change nor read any
other allocations; what they do may fail at any request, what they read is compared
between runs that succeed. -/
structure Isolated (resource : Resource) (ns : String) : Prop where
  sync_changes : ∀ s outcome limit batchSize world,
    Outside resource ns world (Action.exec s outcome (s.sync resource ns limit batchSize) world).2
  release_changes : ∀ s outcome (m : K8sLeaseManager) nodeID world,
    Outside resource ns world (Action.exec s outcome (m.releaseLease (Syncer.leaseKey resource ns) nodeID) world).2
  sync_reads : ∀ s limit batchSize one two, Alike resource ns one two →
    let first := Action.exec s smooth (s.sync resource ns limit batchSize) one
    let second := Action.exec s smooth (s.sync resource ns limit batchSize) two
    first.1 = second.1 ∧ Alike resource ns first.2 second.2
  release_reads : ∀ s (m : K8sLeaseManager) nodeID one two, Alike resource ns one two →
    let first := Action.exec s smooth (m.releaseLease (Syncer.leaseKey resource ns) nodeID) one
    let second := Action.exec s smooth (m.releaseLease (Syncer.leaseKey resource ns) nodeID) two
    first.1 = second.1 ∧ Alike resource ns first.2 second.2

section decode

theorem append_marker_ne (name : String) : name ++ "-proc" ≠ name := by
  intro same
  have lengths := congrArg (fun name => name.toList.length) same
  simp at lengths

/-- A marked name ends in the last letter of the marker. -/
theorem unmarked_of_last {ns : String} (last : ns.toList.getLast? ≠ some 'c') : ¬ ∃ base, ns = base ++ "-proc" := by
  rintro ⟨base, rfl⟩
  apply last
  rw [String.toList_append, List.getLast?_append]
  rfl

theorem isProcSuffix_append {base : String} (some_base : base ≠ "") : isProcSuffix (base ++ "-proc") = (base, true) := by
  have letters : base.toList ≠ [] := fun none => some_base (String.toList_inj.mp none)
  have positive := List.length_pos_iff.mpr letters
  unfold isProcSuffix
  simp only [String.toList_append, List.length_append]
  have five : "-proc".toList.length = 5 := rfl
  rw [five, if_pos]
  · simp
  · refine ⟨by omega, ?_⟩
    simp

theorem isProcSuffix_split {ns : String} (proc : (isProcSuffix ns).2 = true) :
    (isProcSuffix ns).1 ≠ "" ∧ ns = (isProcSuffix ns).1 ++ "-proc" := by
  unfold isProcSuffix at proc ⊢
  simp only at proc ⊢
  split at proc
  next suffix =>
    rw [if_pos suffix]
    constructor
    · intro none
      have := congrArg (fun name => name.toList.length) none
      simp at this
      omega
    · apply String.toList_inj.mp
      rw [String.toList_append, String.toList_ofList, ← suffix.2, List.take_append_drop]
  · cases proc

theorem decodes_proc {ns : String} (named : ns ≠ "") : Decodes (Syncer.leaseKey .proc ns) .proc ns :=
  isProcSuffix_append named

theorem decodes_fd {ns : String} (plain : ¬ ∃ base, ns = base ++ "-proc") : Decodes (Syncer.leaseKey .fd ns) .fd ns := by
  have key : (isProcSuffix ns).2 = false := by
    cases proc : (isProcSuffix ns).2 with
    | false => rfl
    | true => exact absurd ⟨_, (isProcSuffix_split proc).2⟩ plain
  exact Prod.ext (isProcSuffix_false key) key

end decode

section halves
variable {resource other : Resource} {nodeID : String}

theorem requested_other (m : K8sLeaseManager) {quota : ObjectQuota} {amount : Int64} {status : ObjectQuotaStatus}
    (computed : m.requested resource quota nodeID amount = some status) (different : other ≠ resource) :
    status.allocations other = quota.status.allocations other := by
  cases resource with
  | fd =>
    obtain ⟨granted, _, rfl⟩ := K8sLeaseManager.requestedFD_cases computed
    cases other with
    | fd => exact absurd rfl different
    | proc => rfl
  | proc =>
    obtain ⟨granted, _, rfl⟩ := K8sLeaseManager.requestedProc_cases computed
    cases other with
    | fd => rfl
    | proc => exact absurd rfl different

theorem released_other {quota : ObjectQuota} {status : ObjectQuotaStatus}
    (computed : released resource quota nodeID = some status) (different : other ≠ resource) :
    status.allocations other = quota.status.allocations other := by
  cases resource with
  | fd =>
    simp only [released, releasedFD] at computed
    split at computed
    · cases computed
    · obtain rfl := Option.some.inj computed
      cases other with
      | fd => exact absurd rfl different
      | proc => rfl
  | proc =>
    simp only [released, releasedProc] at computed
    split at computed
    · cases computed
    · obtain rfl := Option.some.inj computed
      cases other with
      | fd => rfl
      | proc => exact absurd rfl different

variable {one two : ObjectQuota} (allocations : one.status.allocations resource = two.status.allocations resource)
include allocations

/-- What a request makes of the allocations follows from them and the spec. -/
theorem requested_alike (spec : one.spec = two.spec) (m : K8sLeaseManager) (amount : Int64) :
    (m.requested resource one nodeID amount).map (·.allocations resource) =
      (m.requested resource two nodeID amount).map (·.allocations resource) := by
  rw [m.requested_allocations, m.requested_allocations, allocations, spec]

theorem released_alike :
    (released resource one nodeID).map (·.allocations resource) =
      (released resource two nodeID).map (·.allocations resource) := by
  rw [released_allocations, released_allocations, allocations]

end halves

section changes
variable {resource : Resource} {ns : String} {before middle after : Cluster}

theorem Outside.of_same (same : SameQuotas before after) : Outside resource ns before after := by
  intro other key name _
  rw [same.quota]

theorem Outside.trans (first : Outside resource ns before middle) (second : Outside resource ns middle after) :
    Outside resource ns before after := fun other key name away =>
  (second other key name away).trans (first other key name away)

theorem Updates.outside {writer : Writer} {makes : ObjectQuota → ObjectQuotaStatus → Prop}
    (updates : Updates ns writer makes before after)
    (keeps : ∀ quota status other, makes quota status → other ≠ resource →
      status.allocations other = quota.status.allocations other) : Outside resource ns before after := by
  rcases updates with same | ⟨quota, status, found, makes, written⟩
  · exact .of_same same
  · intro other key name away
    obtain ⟨sameNs, sameName⟩ := Cluster.quota_named found
    rw [written.quota, Cluster.quota_commitStatus]
    by_cases here : key = ns ∧ name = ns
    · obtain ⟨rfl, rfl⟩ := here
      have different : other ≠ resource := fun same => away ⟨same, rfl⟩
      simp only [found, Option.map_some, sameNs, sameName, and_self, ↓reduceIte]
      rw [keeps quota status other makes different]
    · have elsewhere : ¬ (key = quota.ns ∧ name = quota.name) := by
        rw [sameNs, sameName]
        exact here
      simp only [elsewhere, ↓reduceIte, Option.map_map]
      rfl

variable (s : Syncer) (outcome : Request → Option Nat)

/-- After its request for credits a sync leaves the quotas alone. -/
theorem sync_splits (resource : Resource) (ns : String) (limit : Int64) (batchSize : Option Int64) :
    ∃ rest : Int64 → Action (Except SyncError Unit),
      s.sync resource ns limit batchSize = s.effectiveLimit resource ns limit batchSize >>= rest ∧
        ∀ effective, (rest effective).Asks Request.OffQuotas := by
  refine ⟨_, rfl, fun effective => ⟨.of_reads rfl, fun updated => ?_⟩⟩
  cases updated with
  | false => trivial
  | true =>
    refine ⟨.of_reads rfl, fun existing => ⟨.of_reads rfl, fun reset => ?_⟩⟩
    cases reset with
    | false => trivial
    | true =>
      refine ⟨.of_reads rfl, fun listed => ?_⟩
      cases listed with
      | none => trivial
      | some pods =>
        refine ⟨.of_reads rfl, fun mapped => ?_⟩
        cases mapped <;> trivial

theorem exec_sync_quotas (resource : Resource) (ns : String) (limit : Int64) (batchSize : Option Int64) (world : Cluster) :
    SameQuotas (Action.exec s outcome (s.effectiveLimit resource ns limit batchSize) world).2
      (Action.exec s outcome (s.sync resource ns limit batchSize) world).2 := by
  obtain ⟨rest, split, asks⟩ := sync_splits s resource ns limit batchSize
  rw [split, Action.exec_bind]
  exact sameQuotas_exec (asks _) _

theorem exec_sync_updates {resource pool : Resource} {ns base : String} (decodes : Decodes (Syncer.leaseKey resource ns) pool base)
    (limit : Int64) (batchSize : Option Int64) (world : Cluster) :
    Outside pool base world (Action.exec s outcome (s.sync resource ns limit batchSize) world).2 := by
  refine Outside.trans ?_ (.of_same (exec_sync_quotas s outcome resource ns limit batchSize world))
  cases leased : s.leaser with
  | none =>
    unfold Syncer.effectiveLimit
    rw [leased]
    exact .of_same (.refl world)
  | some leaser =>
    rw [Syncer.exec_effectiveLimit leased]
    apply (exec_requestLease s outcome leaser decodes s.nodeID (batchSize.getD 0) world).outside
    exact fun quota status other computed => requested_other leaser computed

end changes

section reads
variable {resource : Resource} {ns : String} {one two one' two' : Cluster}

theorem Alike.of_same (alike : Alike resource ns one two) (nodes : one'.nodes = two'.nodes) (pods : one'.pods = two'.pods)
    (first : SameQuotas one one') (second : SameQuotas two two') : Alike resource ns one' two' := by
  refine ⟨nodes, pods, ?_, ?_⟩
  · intro key name
    rw [first.quota, second.quota]
    exact alike.specs key name
  · intro name
    rw [first.quota, second.quota]
    exact alike.allocations name

theorem Alike.quotas (alike : Alike resource ns one two) :
    one.quota ns ns = none ∧ two.quota ns ns = none ∨ ∃ first second, one.quota ns ns = some first ∧
      two.quota ns ns = some second ∧ first.spec = second.spec ∧
      first.status.allocations resource = second.status.allocations resource := by
  have specs := alike.specs ns ns
  have allocations := alike.allocations ns
  cases first : one.quota ns ns with
  | none =>
    rw [first] at specs
    exact .inl ⟨rfl, Option.map_eq_none_iff.mp specs.symm⟩
  | some quota =>
    cases second : two.quota ns ns with
    | none =>
      rw [first, second] at specs
      cases specs
    | some other =>
      rw [first, second] at specs allocations
      exact .inr ⟨quota, other, rfl, rfl, Option.some.inj specs, Option.some.inj allocations⟩

theorem Alike.commit (alike : Alike resource ns one two) {writer : Writer} {first second : ObjectQuota}
    {status status' : ObjectQuotaStatus} (found : one.quota ns ns = some first) (found' : two.quota ns ns = some second)
    (same : status.allocations resource = status'.allocations resource) :
    Alike resource ns (one.commitStatus writer { first with status }) (two.commitStatus writer { second with status := status' }) := by
  obtain ⟨sameNs, sameName⟩ := Cluster.quota_named found
  obtain ⟨sameNs', sameName'⟩ := Cluster.quota_named found'
  refine ⟨alike.nodes, alike.pods, ?_, ?_⟩
  · intro key name
    rw [Cluster.quota_commitStatus, Cluster.quota_commitStatus, Option.map_map, Option.map_map]
    have specs := alike.specs key name
    have left : ((·.spec) ∘ fun stored : ObjectQuota => if key = first.ns ∧ name = first.name then
        { stored with status, resourceVersion := one.revision + 1 } else stored) = (·.spec) := by
      funext stored
      simp only [Function.comp_apply]
      split <;> rfl
    have right : ((·.spec) ∘ fun stored : ObjectQuota => if key = second.ns ∧ name = second.name then
        { stored with status := status', resourceVersion := two.revision + 1 } else stored) = (·.spec) := by
      funext stored
      simp only [Function.comp_apply]
      split <;> rfl
    rw [left, right]
    exact specs
  · intro name
    rw [Cluster.quota_commitStatus, Cluster.quota_commitStatus, Option.map_map, Option.map_map]
    simp only [sameNs, sameName, sameNs', sameName']
    by_cases here : name = ns
    · subst here
      simp only [found, found', Option.map_some, Function.comp_apply, and_self, ↓reduceIte, same]
    · simp only [here, and_false, ↓reduceIte]
      exact alike.allocations name

/-- Two runs of one action that touch the quotas in the same way. -/
private theorem Alike.ended {α : Type} {s : Syncer} {action : Action α} (asks : action.Asks Request.OffNode)
    (alike : Alike resource ns one two) (middle : Alike resource ns one' two')
    (first : SameQuotas one' (Action.exec s smooth action one).2)
    (second : SameQuotas two' (Action.exec s smooth action two).2) :
    Alike resource ns (Action.exec s smooth action one).2 (Action.exec s smooth action two).2 := by
  have left : OffNode one (Action.exec s smooth action one).2 := offNode_exec asks one
  have right : OffNode two (Action.exec s smooth action two).2 := offNode_exec asks two
  exact middle.of_same (left.nodes.trans (alike.nodes.trans right.nodes.symm))
    (left.pods.trans (alike.pods.trans right.pods.symm)) first second

variable (s : Syncer) (m : K8sLeaseManager)

theorem Alike.requestLease {key : String} (alike : Alike resource ns one two) (decodes : Decodes key resource ns)
    (nodeID : String) (requested : Int64) :
    let first := Action.exec s smooth (m.requestLease key nodeID requested) one
    let second := Action.exec s smooth (m.requestLease key nodeID requested) two
    first.1 = second.1 ∧ Alike resource ns first.2 second.2 := by
  have asks := m.requestLease_asks key nodeID requested
  by_cases own : nodeID = m.nodeID
  · subst own
    have left := smooth_requestLease s m decodes requested one
    have right := smooth_requestLease s m decodes requested two
    simp only at left right ⊢
    rcases alike.quotas with ⟨none, none'⟩ | ⟨quota, other, found, found', spec, allocations⟩
    · rw [none] at left
      rw [none'] at right
      simp only at left right
      rw [left, right]
      exact ⟨rfl, alike⟩
    · rw [found] at left
      rw [found'] at right
      simp only [Answers, allocations] at left right
      cases held : ((other.status.allocations resource).lookup m.nodeID).filter (0 < ·) with
      | some existing =>
        rw [held] at left right
        exact ⟨left.1.trans right.1.symm, alike.ended asks alike left.2 right.2⟩
      | none =>
        rw [held] at left right
        have makes := @requested_alike resource m.nodeID quota other allocations spec m requested
        cases computed : m.requested resource quota m.nodeID requested with
        | none =>
          rw [computed, Option.map_none, eq_comm, Option.map_eq_none_iff] at makes
          rw [computed] at left
          rw [makes] at right
          exact ⟨left.1.trans right.1.symm, alike.ended asks alike left.2 right.2⟩
        | some status =>
          rw [computed, Option.map_some, eq_comm, Option.map_eq_some_iff] at makes
          obtain ⟨status', computed', same⟩ := makes
          rw [computed] at left
          rw [computed'] at right
          simp only at left right
          refine ⟨left.1.trans (right.1.trans (by rw [same])).symm, ?_⟩
          exact alike.ended asks (alike.commit found found' same.symm) left.2 right.2
  · simp only [m.requestLease_wrong own]
    exact ⟨trivial, alike⟩

theorem Alike.releaseLease {key : String} (alike : Alike resource ns one two) (decodes : Decodes key resource ns)
    (nodeID : String) :
    let first := Action.exec s smooth (m.releaseLease key nodeID) one
    let second := Action.exec s smooth (m.releaseLease key nodeID) two
    first.1 = second.1 ∧ Alike resource ns first.2 second.2 := by
  have asks := m.releaseLease_asks key nodeID
  have left := smooth_releaseLease s m decodes nodeID one
  have right := smooth_releaseLease s m decodes nodeID two
  simp only at left right ⊢
  rcases alike.quotas with ⟨none, none'⟩ | ⟨quota, other, found, found', spec, allocations⟩
  · rw [none] at left
    rw [none'] at right
    simp only at left right
    rw [left, right]
    exact ⟨rfl, alike⟩
  · rw [found] at left
    rw [found'] at right
    simp only [allocations] at left right
    have makes := @released_alike resource nodeID quota other allocations
    cases computed : released resource quota nodeID with
    | none =>
      rw [computed, Option.map_none, eq_comm, Option.map_eq_none_iff] at makes
      rw [computed] at left
      rw [makes] at right
      exact ⟨left.1.trans right.1.symm, alike.ended asks alike left.2 right.2⟩
    | some status =>
      rw [computed, Option.map_some, eq_comm, Option.map_eq_some_iff] at makes
      obtain ⟨status', computed', same⟩ := makes
      rw [computed] at left
      rw [computed'] at right
      simp only at left right
      exact ⟨left.1.trans right.1.symm, alike.ended asks (alike.commit found found' same.symm) left.2 right.2⟩

end reads

theorem Decodes.isolated {resource : Resource} {ns : String} (decodes : Decodes (Syncer.leaseKey resource ns) resource ns) :
    Isolated resource ns := by
  refine ⟨?_, ?_, ?_, ?_⟩
  · exact fun s outcome limit batchSize world => exec_sync_updates s outcome decodes limit batchSize world
  · intro s outcome m nodeID world
    apply (exec_releaseLease s outcome m decodes nodeID world).outside
    exact fun quota status other computed => released_other computed
  · intro s limit batchSize one two alike
    have credits : (Action.exec s smooth (s.effectiveLimit resource ns limit batchSize) one).1 =
          (Action.exec s smooth (s.effectiveLimit resource ns limit batchSize) two).1 ∧
        Alike resource ns (Action.exec s smooth (s.effectiveLimit resource ns limit batchSize) one).2
          (Action.exec s smooth (s.effectiveLimit resource ns limit batchSize) two).2 := by
      cases leased : s.leaser with
      | none =>
        unfold Syncer.effectiveLimit
        rw [leased]
        exact ⟨rfl, alike⟩
      | some leaser =>
        obtain ⟨same, later⟩ := alike.requestLease s leaser decodes s.nodeID (batchSize.getD 0)
        simp only [Syncer.exec_effectiveLimit leased, same]
        exact ⟨trivial, later⟩
    have first := s.sync_smooth resource ns limit batchSize one
    have second := s.sync_smooth resource ns limit batchSize two
    simp only at first second ⊢
    rw [first, second, credits.1, credits.2.nodes, credits.2.pods]
    refine ⟨rfl, ?_⟩
    refine Alike.of_same credits.2 ?_ credits.2.pods ⟨rfl, rfl, Nat.le_refl _⟩ ⟨rfl, rfl, Nat.le_refl _⟩
    simp only [Cluster.editNode, credits.2.nodes]
  · exact fun s m nodeID one two alike => alike.releaseLease s m decodes nodeID

section marked
variable (base : String)

/-- The quota of another namespace, with a process limit and nothing leased yet. -/
def strangerQuota : ObjectQuota := ⟨base, base, 0, ⟨none, some 10, none⟩, .empty⟩

theorem stranger_found : (Cluster.empty [strangerQuota base]).quota base base = some (strangerQuota base) := by
  simp [Cluster.quota, Cluster.empty, strangerQuota]

/-- A sync of the descriptors of a namespace with the marker leases processes elsewhere. -/
theorem marked_leases (named : base ≠ "") (limit : Int64) :
    let s : Syncer := ⟨"node", some (newK8sLeaseManager "node" 1000)⟩
    let after := (Action.exec s smooth (s.sync .fd (base ++ "-proc") limit none) (.empty [strangerQuota base])).2
    (after.quota base base).map (·.status.allocations .proc) ≠
      ((Cluster.empty [strangerQuota base]).quota base base).map (·.status.allocations .proc) := by
  intro s after
  let m := newK8sLeaseManager "node" 1000
  have decodes : Decodes (base ++ "-proc") .proc base := isProcSuffix_append named
  have requests := smooth_requestLease s m decodes 0 (.empty [strangerQuota base])
  have settled := exec_sync_quotas s smooth .fd (base ++ "-proc") limit none (.empty [strangerQuota base])
  have makes : (m.requested .proc (strangerQuota base) m.nodeID 0).map (·.allocations .proc) =
      (m.requested .proc (strangerQuota "") m.nodeID 0).map (·.allocations .proc) :=
    @requested_alike .proc m.nodeID (strangerQuota base) (strangerQuota "") rfl rfl m 0
  have granted : (m.requested .proc (strangerQuota "") m.nodeID 0).map (·.procAllocations.lookup "node") = some (some 10) := by
    decide +kernel
  have fresh : (((strangerQuota base).status.allocations .proc).lookup m.nodeID).filter (0 < ·) = none := rfl
  simp only [stranger_found, Answers, fresh] at requests
  obtain ⟨status', computed', leased⟩ := Option.map_eq_some_iff.mp granted
  rw [computed', Option.map_some, Option.map_eq_some_iff] at makes
  obtain ⟨status, computed, same⟩ := makes
  rw [computed] at requests
  have quotas : (after.quota base base).map (·.status.allocations .proc) = some (status.allocations .proc) := by
    have stored := requests.2.quota base base
    rw [Cluster.quota_commitStatus, stranger_found] at stored
    rw [settled.quota, Syncer.exec_effectiveLimit rfl]
    refine (congrArg _ stored).trans ?_
    simp [strangerQuota]
  rw [quotas, stranger_found, same]
  intro unchanged
  have empty : status'.procAllocations = ∅ := Option.some.inj unchanged
  rw [empty] at leased
  cases leased

end marked

/-- Kubernetes knows no namespace that is nothing but the marker. -/
theorem NamespaceName.marked {ns base : String} (valid : NamespaceName ns) (marked : ns = base ++ "-proc") : base ≠ "" := by
  rintro rfl
  obtain ⟨char, first, letter⟩ := valid.first
  rw [marked] at first
  cases first
  cases letter

/-- The leases of a namespace never mix with others exactly when its name does not end
in the marker of process leases. -/
theorem leases_isolated_iff {ns : String} (valid : NamespaceName ns) :
    (∀ resource, Isolated resource ns) ↔ ¬ ∃ base, ns = base ++ "-proc" := by
  constructor
  · rintro isolated ⟨base, marked⟩
    have named := valid.marked marked
    have outside := (isolated .fd).sync_changes ⟨"node", some (newK8sLeaseManager "node" 1000)⟩ smooth 10 none
      (.empty [strangerQuota base]) .proc base base (by simp)
    rw [marked] at outside
    exact marked_leases base named 10 outside
  · intro plain resource
    cases resource with
    | fd => exact (decodes_fd plain).isolated
    | proc =>
      apply (decodes_proc ?_).isolated
      rintro rfl
      obtain ⟨char, first, _⟩ := valid.first
      cases first

theorem leases_isolated_team : Isolated .fd "team" ∧ Isolated .proc "team" := by
  have valid : NamespaceName "team" := ⟨by simp [alphanumeric], ⟨'t', rfl, rfl⟩, ⟨'m', rfl, rfl⟩⟩
  have isolated := (leases_isolated_iff valid).mpr (unmarked_of_last (by decide))
  exact ⟨isolated .fd, isolated .proc⟩

/-- Somebody syncs the descriptors of `team-proc`, which leases the processes of `team`. -/
theorem marked_name_leases_elsewhere :
    let s : Syncer := ⟨"node", some (newK8sLeaseManager "node" 1000)⟩
    let before := Cluster.empty [strangerQuota "team"]
    let after := (Action.exec s smooth (s.syncNamespace "team-proc" 5 none) before).2
    NamespaceName "team-proc" ∧
      (before.quota "team" "team").map (·.status.procAllocations.lookup "node") = some none ∧
      (after.quota "team" "team").map (·.status.procAllocations.lookup "node") = some (some 10) ∧
      ¬ Isolated .fd "team-proc" := by
  intro s before after
  have granted : (after.quota "team" "team").map (·.status.procAllocations.lookup "node") = some (some 10) := by
    decide +kernel
  refine ⟨⟨by simp [alphanumeric], ⟨'t', rfl, rfl⟩, ⟨'c', rfl, rfl⟩⟩, by decide +kernel, granted, ?_⟩
  intro isolated
  have unchanged := isolated.sync_changes s smooth 5 none before .proc "team" "team" (by decide)
  have same := congrArg (Option.map fun allocations : Allocations => allocations.lookup "node") unchanged
  rw [Option.map_map, Option.map_map] at same
  exact absurd (granted.symm.trans same) (by decide +kernel)

end QuotaManager
