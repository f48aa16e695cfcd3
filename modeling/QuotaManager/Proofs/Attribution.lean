import QuotaManager.Proofs.Mappings
import QuotaManager.Proofs.Protocol

/-! To which namespace a mapped cgroup belongs. On a node whose mappings are never
removed, every mapping agrees with the owner of its cgroup and is known to the
syncer, and the top consumer of a lease is a cgroup of the lease's namespace. -/

namespace QuotaManager
open Enforcer

namespace Enforcer

/-- A lease with a top consumer names a cgroup of its namespace. -/
def TopMapped (maps : ResourceMaps) (nsKey : UInt64) (lease : CpuLease) : Prop :=
  0 < lease.topCount → maps.cgroup lease.topCgid = some nsKey

def AllTopsMapped (maps : ResourceMaps) : Prop :=
  ∀ nsKey lease, maps.nsCounter nsKey = some lease → TopMapped maps nsKey lease

variable {maps : ResourceMaps} {task : Task} {nsKey : UInt64} {lease : CpuLease}

theorem TopMapped.same (top : TopMapped maps nsKey lease) {other : CpuLease} (same : other.SameTop lease) :
    TopMapped maps nsKey other := by
  intro counted
  rw [same.2] at counted
  rw [same.1]
  exact top counted

theorem TopMapped.noted (top : TopMapped maps nsKey lease) (mapped : maps.cgroup task.cgid = some nsKey) :
    TopMapped maps nsKey (maps.noted task lease) := by
  intro counted
  simp only [ResourceMaps.noted, CpuLease.noteTop] at counted ⊢
  split at counted
  next higher => rw [if_pos higher]; exact mapped
  next lower => rw [if_neg lower]; exact top counted

theorem AllTopsMapped.update (tops : AllTopsMapped maps) {after : ResourceMaps} (cgroup : after.cgroup = maps.cgroup)
    (counters : after.nsCounter = maps.nsCounter.update nsKey lease) (top : TopMapped maps nsKey lease) :
    AllTopsMapped after := by
  intro key found stored
  rw [counters] at stored
  unfold TopMapped
  rw [cgroup]
  by_cases same : key = nsKey
  · subst same
    rw [BpfMap.update_self] at stored
    exact Option.some.inj stored ▸ top
  · rw [BpfMap.update_of_ne _ _ _ _ same] at stored
    exact tops key found stored

/-- The step lemma: a kernel event keeps every top consumer mapped. -/
theorem AllTopsMapped.use (tops : AllTopsMapped maps) (reason : UInt32) (usage : Usage) :
    AllTopsMapped (maps.use reason usage) := by
  cases usage with
  | idle => exact tops
  | acquire task =>
    cases mapped : maps.cgroup task.cgid with
    | none =>
      rw [ResourceMaps.use, ResourceMaps.check_unmapped reason mapped]
      exact tops
    | some key =>
      by_cases counted : ∃ limit lease, maps.Enforced key limit lease
      · obtain ⟨limit, lease, enforced⟩ := counted
        rw [ResourceMaps.use, ResourceMaps.check_enforced reason mapped enforced]
        have top := (tops key lease enforced.leased).noted mapped
        exact tops.update rfl rfl (top.same (CpuLease.charge_top task key reason _ limit))
      · rw [ResourceMaps.use, ResourceMaps.check_unenforced reason mapped
          (fun limit lease enforced => counted ⟨limit, lease, enforced⟩), ResourceMaps.recordInc_eq]
        exact tops
  | release task =>
    intro key lease stored
    have cgroup : (maps.release task).cgroup = maps.cgroup := (ResourceMaps.release_frame maps task).1
    unfold TopMapped
    rw [ResourceMaps.use, cgroup]
    by_cases mapped : maps.cgroup task.cgid = some key
    · rw [ResourceMaps.use, ResourceMaps.release_mapped mapped] at stored
      obtain ⟨before, held, rfl⟩ := Option.map_eq_some_iff.mp stored
      apply (tops key before held).same
      unfold ResourceMaps.released
      split <;> exact ⟨rfl, rfl⟩
    · rw [ResourceMaps.use, ResourceMaps.release_unmapped mapped] at stored
      exact tops key lease stored

end Enforcer

/-- The namespaces of cgroups and pods. Namespaces that own cgroups have keys of their own. -/
structure Owners where
  cgroup : UInt64 → String
  pod : String → String
  injective : ∀ one two, namespaceKey (cgroup one) = namespaceKey (cgroup two) → cgroup one = cgroup two

/-- The cgroup is one of the namespace's. -/
def Owners.Own (owners : Owners) (ns : String) (cInfo : CgroupInfo) : Prop :=
  cInfo.cgroupID ≠ 0 ∧ owners.cgroup cInfo.cgroupID = ns

structure Attributed (owners : Owners) (node : Node) : Prop where
  mapped : ∀ resource cgid nsKey, (node.bpf.maps resource).cgroup cgid = some nsKey →
    cgid ≠ 0 ∧ nsKey = namespaceKey (owners.cgroup cgid) ∧ (node.cgroupPaths cgid).isSome ∧ (node.nsNameByKey nsKey).isSome
  tops : ∀ resource, AllTopsMapped (node.bpf.maps resource)
  named : ∀ ns, (node.nsCgroups ns).isSome → (node.nsNameByKey (namespaceKey ns)).isSome
  resolved : ∀ uid cInfos, node.resolve uid = some cInfos → ∀ cInfo ∈ cInfos, owners.Own (owners.pod uid) cInfo

/-- What stays on a node once it is there. -/
structure Grown (before after : Node) : Prop where
  cgroup : ∀ resource cgid nsKey, (before.bpf.maps resource).cgroup cgid = some nsKey →
    (after.bpf.maps resource).cgroup cgid = some nsKey
  tracked : ∀ ns, (before.nsCgroups ns).isSome → (after.nsCgroups ns).isSome

namespace Grown

theorem refl (node : Node) : Grown node node := ⟨fun _ _ _ mapped => mapped, fun _ tracked => tracked⟩

theorem trans {first second third : Node} (one : Grown first second) (two : Grown second third) : Grown first third :=
  ⟨fun resource cgid nsKey mapped => two.cgroup resource cgid nsKey (one.cgroup resource cgid nsKey mapped),
    fun ns tracked => two.tracked ns (one.tracked ns tracked)⟩

theorem topMapped {before after : Node} (grown : Grown before after) {resource : Resource} {nsKey : UInt64} {lease : CpuLease}
    (top : TopMapped (before.bpf.maps resource) nsKey lease) : TopMapped (after.bpf.maps resource) nsKey lease :=
  fun counted => grown.cgroup resource _ nsKey (top counted)

end Grown

/-- A cgroup was mapped for some of the resources, and its path recorded. -/
structure Records (nsKey : UInt64) (cInfo : CgroupInfo) (before after : Node) : Prop where
  remapped : Remapped before after
  cgroup : ∀ resource, (after.bpf.maps resource).cgroup = (before.bpf.maps resource).cgroup ∨
    (after.bpf.maps resource).cgroup = (before.bpf.maps resource).cgroup.update cInfo.cgroupID nsKey
  paths : after.cgroupPaths = before.cgroupPaths.update cInfo.cgroupID cInfo.cgroupPath
  names : after.nsNameByKey = before.nsNameByKey
  tracked : ∀ ns, (after.nsCgroups ns).isSome = (before.nsCgroups ns).isSome
  resolve : after.resolve = before.resolve

namespace Attributed
variable {owners : Owners} {node after : Node}

private theorem recorded {nsKey : UInt64} {cInfo : CgroupInfo}
    (records : Records nsKey cInfo node after) {resource : Resource} {cgid key : UInt64}
    (mapped : (after.bpf.maps resource).cgroup cgid = some key) :
    (node.bpf.maps resource).cgroup cgid = some key ∨ cgid = cInfo.cgroupID ∧ key = nsKey := by
  rcases records.cgroup resource with same | updated
  · exact .inl (same ▸ mapped)
  · rw [updated] at mapped
    by_cases here : cgid = cInfo.cgroupID
    · subst here
      rw [BpfMap.update_self] at mapped
      exact .inr ⟨rfl, (Option.some.inj mapped).symm⟩
    · rw [BpfMap.update_of_ne _ _ _ _ here] at mapped
      exact .inl mapped

private theorem records_grown (kept : Attributed owners node) {ns : String} {cInfo : CgroupInfo}
    (own : owners.Own ns cInfo) (records : Records (namespaceKey ns) cInfo node after) : Grown node after := by
  refine ⟨?_, fun ns tracked => by rw [records.tracked]; exact tracked⟩
  intro resource cgid nsKey mapped
  rcases records.cgroup resource with same | updated
  · rw [same]
    exact mapped
  · rw [updated]
    by_cases here : cgid = cInfo.cgroupID
    · obtain ⟨_, key, _, _⟩ := kept.mapped resource cgid nsKey mapped
      rw [here, BpfMap.update_self, key, here, own.2]
    · rw [BpfMap.update_of_ne _ _ _ _ here]
      exact mapped

theorem records (kept : Attributed owners node) {ns : String} {cInfo : CgroupInfo}
    (own : owners.Own ns cInfo) (named : (node.nsNameByKey (namespaceKey ns)).isSome)
    (records : Records (namespaceKey ns) cInfo node after) : Attributed owners after ∧ Grown node after := by
  have grown := kept.records_grown own records
  refine ⟨⟨?_, ?_, ?_, ?_⟩, grown⟩
  · intro resource cgid nsKey mapped
    rw [records.names, records.paths]
    rcases recorded records mapped with old | ⟨rfl, rfl⟩
    · obtain ⟨nonzero, key, path, name⟩ := kept.mapped resource cgid nsKey old
      refine ⟨nonzero, key, ?_, name⟩
      by_cases here : cgid = cInfo.cgroupID
      · rw [here, BpfMap.update_self]
        rfl
      · rw [BpfMap.update_of_ne _ _ _ _ here]
        exact path
    · exact ⟨own.1, by rw [own.2], by rw [BpfMap.update_self]; rfl, named⟩
  · intro resource nsKey lease stored
    rw [records.remapped.nsCounter] at stored
    exact grown.topMapped (kept.tops resource nsKey lease stored)
  · intro ns tracked
    rw [records.tracked] at tracked
    rw [records.names]
    exact kept.named ns tracked
  · rw [records.resolve]
    exact kept.resolved

end Attributed

theorem Records.mapResolved (node : Node) (resource : Resource) (nsKey : UInt64) (cInfo : CgroupInfo) :
    Records nsKey cInfo node ((node.updateCgroupMapping resource cInfo.cgroupID nsKey).recordPath cInfo) := by
  refine ⟨(Remapped.updateCgroupMapping node resource _ _).trans (Remapped.recordPath _ cInfo), ?_, rfl, rfl, fun _ => rfl, rfl⟩
  intro other
  by_cases same : other = resource
  · subst same
    exact .inr (by simp only [Node.recordPath, Node.updateCgroupMapping, Node.edit_maps, ResourceMaps.updateCgroupMapping])
  · exact .inl (by simp only [Node.recordPath, Node.updateCgroupMapping, Node.edit_other _ _ same])

theorem Records.mapScanned (node : Node) (nsKey : UInt64) (cInfo : CgroupInfo) (ns : String) (known : Finset UInt64)
    (tracked : (node.nsCgroups ns).isSome) :
    Records nsKey cInfo node ((((node.updateCgroupMapping .fd cInfo.cgroupID nsKey).updateCgroupMapping .proc
      cInfo.cgroupID nsKey).track ns known).recordPath cInfo) := by
  have first := Remapped.updateCgroupMapping node .fd cInfo.cgroupID nsKey
  have second := first.trans (Remapped.updateCgroupMapping _ .proc cInfo.cgroupID nsKey)
  refine ⟨second.trans ((Remapped.track _ ns known).trans (Remapped.recordPath _ cInfo)), ?_, rfl, rfl, ?_, rfl⟩
  · intro resource
    cases resource <;> exact .inr rfl
  · intro other
    simp only [Node.recordPath, Node.track, Node.updateCgroupMapping, Node.edit, Function.update_apply]
    split
    next same => rw [same, tracked]; rfl
    · rfl

namespace Attributed
variable {owners : Owners} {node : Node}

theorem mapResolved (kept : Attributed owners node) (resource : Resource) {ns : String} {cInfos : List CgroupInfo}
    (own : ∀ cInfo ∈ cInfos, owners.Own ns cInfo) (named : (node.nsNameByKey (namespaceKey ns)).isSome)
    (known : Finset UInt64) :
    let after := (Node.mapResolved resource (namespaceKey ns) cInfos none known node).2
    Attributed owners after ∧ Grown node after ∧ after.nsNameByKey = node.nsNameByKey := by
  induction cInfos generalizing known node with
  | nil => exact ⟨kept, .refl node, rfl⟩
  | cons cInfo rest ih =>
    obtain ⟨next, grown⟩ := kept.records (own cInfo List.mem_cons_self) named
      (Records.mapResolved node resource (namespaceKey ns) cInfo)
    obtain ⟨last, later, names⟩ := ih next (fun other member => own other (List.mem_cons_of_mem _ member)) named
      (insert cInfo.cgroupID known)
    simp only [Node.mapResolved, reduceCtorEq, ↓reduceIte, Option.map_none]
    exact ⟨last, grown.trans later, names⟩

theorem track (kept : Attributed owners node) {ns : String} (named : (node.nsNameByKey (namespaceKey ns)).isSome)
    (known : Finset UInt64) : Attributed owners (node.track ns known) ∧ Grown node (node.track ns known) := by
  refine ⟨⟨kept.mapped, kept.tops, ?_, kept.resolved⟩, ⟨fun _ _ _ mapped => mapped, ?_⟩⟩
  · intro other tracked
    simp only [Node.track, Function.update_apply] at tracked ⊢
    split at tracked
    next same => rw [same]; exact named
    · exact kept.named other tracked
  · intro other tracked
    simp only [Node.track, Function.update_apply]
    split
    · rfl
    · exact tracked

private theorem name (kept : Attributed owners node) (ns : String) :
    Attributed owners { node with nsNameByKey := node.nsNameByKey.update (namespaceKey ns) ns } := by
  have known (key : UInt64) (before : (node.nsNameByKey key).isSome) :
      (node.nsNameByKey.update (namespaceKey ns) ns key).isSome := by
    by_cases same : key = namespaceKey ns
    · rw [same, BpfMap.update_self]
      rfl
    · rw [BpfMap.update_of_ne _ _ _ _ same]
      exact before
  refine ⟨?_, kept.tops, fun other tracked => known _ (kept.named other tracked), kept.resolved⟩
  intro resource cgid nsKey mapped
  obtain ⟨nonzero, key, path, name⟩ := kept.mapped resource cgid nsKey mapped
  exact ⟨nonzero, key, path, known _ name⟩

private theorem own_resolved (kept : Attributed owners node) {ns : String} {pods : List Pod}
    (own : ∀ pod ∈ pods, owners.pod pod.uid = ns) : ∀ cInfo ∈ node.resolved pods, owners.Own ns cInfo := by
  intro cInfo member
  obtain ⟨pod, listed, answered⟩ := List.mem_flatMap.mp member
  rw [← own pod (List.mem_filter.mp listed).1]
  cases found : node.resolve pod.uid with
  | none =>
    rw [found] at answered
    exact absurd answered List.not_mem_nil
  | some cInfos =>
    rw [found] at answered
    exact kept.resolved pod.uid cInfos found cInfo answered

theorem mapPods (kept : Attributed owners node) (resource : Resource) {ns : String} {pods : List Pod}
    (own : ∀ pod ∈ pods, owners.pod pod.uid = ns) :
    Attributed owners (node.mapPods resource ns pods none).2 ∧ Grown node (node.mapPods resource ns pods none).2 := by
  have here : (node.nsNameByKey.update (namespaceKey ns) ns (namespaceKey ns)).isSome := by
    rw [BpfMap.update_self]
    rfl
  obtain ⟨last, grown, names⟩ := (kept.name ns).mapResolved resource (kept.own_resolved own) here ∅
  have begun : Grown node { node with nsNameByKey := node.nsNameByKey.update (namespaceKey ns) ns } :=
    ⟨fun _ _ _ mapped => mapped, fun _ tracked => tracked⟩
  have grown := begun.trans grown
  unfold Node.mapPods
  simp only
  split
  next cgroupID ended same =>
    rw [same] at last grown
    exact ⟨last, grown⟩
  next known ended same =>
    rw [same] at last grown names
    obtain ⟨tracked, later⟩ := last.track (by rw [names]; exact here) known
    exact ⟨tracked, grown.trans later⟩

theorem mapScanned (kept : Attributed owners node) {ns : String} {cInfos : List CgroupInfo}
    (own : ∀ cInfo ∈ cInfos, owners.Own ns cInfo) (tracked : (node.nsCgroups ns).isSome) (existing : Finset UInt64) :
    Attributed owners (Node.mapScanned ns cInfos (fun _ => false) existing node).2 ∧
      Grown node (Node.mapScanned ns cInfos (fun _ => false) existing node).2 := by
  induction cInfos generalizing existing node with
  | nil => exact ⟨kept, .refl node⟩
  | cons cInfo rest ih =>
    have owns := fun other member => own other (List.mem_cons_of_mem _ member)
    unfold Node.mapScanned
    split
    · exact ih kept owns tracked existing
    · simp only [Bool.false_eq_true, ↓reduceIte]
      split
      next missing =>
        have untracked : node.nsCgroups ns = none := missing
        rw [untracked] at tracked
        cases tracked
      next known found =>
        obtain ⟨next, grown⟩ := kept.records (own cInfo List.mem_cons_self) (kept.named ns tracked)
          (Records.mapScanned node (namespaceKey ns) cInfo ns (insert cInfo.cgroupID known) tracked)
        obtain ⟨last, later⟩ := ih next owns (grown.tracked ns tracked) (insert cInfo.cgroupID existing)
        exact ⟨last, grown.trans later⟩

theorem kernel (kept : Attributed owners node) (event : KernelEvent) :
    Attributed owners { node with bpf := node.bpf.after event } ∧ Grown node { node with bpf := node.bpf.after event } := by
  have cgroup (resource : Resource) : ((node.bpf.after event).maps resource).cgroup = (node.bpf.maps resource).cgroup := by
    rw [Bpf.after_maps, ResourceMaps.use_cgroup]
  refine ⟨⟨?_, ?_, kept.named, kept.resolved⟩, ⟨?_, fun _ tracked => tracked⟩⟩
  · intro resource cgid nsKey mapped
    rw [cgroup] at mapped
    exact kept.mapped resource cgid nsKey mapped
  · intro resource
    rw [Bpf.after_maps]
    exact (kept.tops resource).use _ _
  · intro resource cgid nsKey mapped
    rw [cgroup]
    exact mapped

theorem edit (kept : Attributed owners node) (resource : Resource) {change : ResourceMaps → ResourceMaps}
    (cgroup : (change (node.bpf.maps resource)).cgroup = (node.bpf.maps resource).cgroup)
    (tops : AllTopsMapped (change (node.bpf.maps resource))) :
    Attributed owners (node.edit resource change) ∧ Grown node (node.edit resource change) := by
  have same (other : Resource) : ((node.edit resource change).bpf.maps other).cgroup = (node.bpf.maps other).cgroup := by
    by_cases here : other = resource
    · rw [here, Node.edit_maps, cgroup]
    · rw [Node.edit_other _ _ here]
  refine ⟨⟨?_, ?_, kept.named, kept.resolved⟩, ⟨?_, fun _ tracked => tracked⟩⟩
  · intro other cgid nsKey mapped
    rw [same] at mapped
    exact kept.mapped other cgid nsKey mapped
  · intro other
    by_cases here : other = resource
    · rw [here, Node.edit_maps]
      exact tops
    · rw [Node.edit_other _ _ here]
      exact kept.tops other
  · intro other cgid nsKey mapped
    rw [same]
    exact mapped

end Attributed
end QuotaManager
