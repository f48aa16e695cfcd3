import QuotaManager.Logic.Outcomes
import QuotaManager.Proofs.Bookkeeping

/-! What is true of a node when a sync returns without an error, whatever has become of
its requests in between. -/

namespace QuotaManager
open Enforcer

/-- A run of an operation alone, every request with an outcome of its own. -/
abbrev Action.Ends {α : Type} (s : Syncer) (action : Action α) :
    Cluster → List (Request × Option Nat) → α → Cluster → Prop :=
  Program.Ends (fun world request => world.serve s request) action

abbrev Flow.Ends {α : Type} (s : Syncer) (flow : Flow α) :
    Cluster → List (ControllerRequest × Option Nat) → α → Cluster → Prop :=
  Program.Ends (fun world request => world.control s request) flow

theorem Flow.ends_exec {α : Type} (s : Syncer) (outcome : ControllerRequest → Option Nat) (flow : Flow α) (world : Cluster) :
    ∃ turns, Flow.Ends s flow world turns (Flow.exec s outcome flow world).1 (Flow.exec s outcome flow world).2 ∧
      ∀ turn ∈ turns, turn.2 = outcome turn.1 :=
  Program.ends_exec flow outcome world

theorem Node.mapPods_completes (node : Node) (resource : Resource) {ns : String} (pods : List Pod) {fault : Option Nat}
    (mapped : (node.mapPods resource ns pods fault).1 = .ok ()) : completes (node.resolved pods) fault = true := by
  have loop := mapResolved_book { node with nsNameByKey := node.nsNameByKey.update (namespaceKey ns) ns } resource ns
    (node.resolved pods) fault ∅
  simp only at loop
  unfold mapPods at mapped
  simp only at mapped
  split at mapped
  · cases mapped
  next ended =>
    rw [ended] at loop
    exact loop.2.1

namespace Syncer
variable {s : Syncer}

theorem effectiveLimit_ends {resource : Resource} {ns : String} {limit effective : Int64} {batchSize : Option Int64}
    {world later : Cluster} {turns : List (Request × Option Nat)}
    (ended : Action.Ends s (s.effectiveLimit resource ns limit batchSize) world turns effective later) :
    OffNode world later ∧ (s.leaser = none → effective = limit) := by
  constructor
  · apply (s.effectiveLimit_asks resource ns limit batchSize).ends_kept (OffNode world) _ ended (.refl world)
    intro middle request outcome api kept
    obtain ⟨nodes, pods⟩ := serve_api middle s api outcome
    exact kept.trans ⟨nodes, pods⟩
  · intro unleased
    unfold effectiveLimit at ended
    rw [unleased] at ended
    exact (Program.ends_done.mp ended).2.1

/-- What a sync that returns without an error has done. -/
structure Returned (s : Syncer) (resource : Resource) (ns : String) (limit : Int64) (world later : Cluster) : Prop where
  pods : later.pods = world.pods
  resolve : (later.nodes s.nodeID).resolve = (world.nodes s.nodeID).resolve
  book : (later.nodes s.nodeID).book =
    (world.nodes s.nodeID).book.sync resource ns ((world.nodes s.nodeID).resolved (world.pods ns)) true
  limit : s.leaser = none → ((later.nodes s.nodeID).bpf.maps resource).nsLimit (namespaceKey ns) = some limit.toUInt64
  other : ∀ other ≠ resource, ((later.nodes s.nodeID).bpf.maps other).nsLimit = ((world.nodes s.nodeID).bpf.maps other).nsLimit

theorem Returned.of_mapPods {resource : Resource} {ns : String} {limit effective : Int64} {lease : CpuLease} {fault : Option Nat}
    {world later : Cluster} (pods : later.pods = world.pods) (whole : s.leaser = none → effective = limit)
    (complete : Node.completes ((world.nodes s.nodeID).resolved (world.pods ns)) fault = true)
    (ended : later.nodes s.nodeID = (((world.nodes s.nodeID).edit resource fun maps =>
      (maps.updateNsLimit (namespaceKey ns) effective).updateNsCounter (namespaceKey ns) lease).mapPods
        resource ns (world.pods ns) fault).2) : Returned s resource ns limit world later := by
  have remapped := Remapped.mapPods ((world.nodes s.nodeID).edit resource fun maps =>
    (maps.updateNsLimit (namespaceKey ns) effective).updateNsCounter (namespaceKey ns) lease) resource ns (world.pods ns) fault
  rw [← ended] at remapped
  have all : Node.taken ((world.nodes s.nodeID).resolved (world.pods ns)) fault =
      (world.nodes s.nodeID).resolved (world.pods ns) := by
    cases fault with
    | none => rfl
    | some fault => exact List.take_of_length_le (of_decide_eq_true complete)
  refine ⟨pods, ?_, ?_, ?_, ?_⟩
  · rw [ended, Node.mapPods_resolve]
    rfl
  · have written : ((world.nodes s.nodeID).edit resource fun maps =>
        (maps.updateNsLimit (namespaceKey ns) effective).updateNsCounter (namespaceKey ns) lease).book =
          (world.nodes s.nodeID).book := Node.edit_book _ _ fun _ => rfl
    rw [ended, Node.mapPods_book, written]
    change Book.sync _ _ _ (Node.taken ((world.nodes s.nodeID).resolved (world.pods ns)) fault)
      (Node.completes ((world.nodes s.nodeID).resolved (world.pods ns)) fault) = _
    rw [complete, all]
  · intro unleased
    rw [remapped.nsLimit, Node.edit_maps, ← whole unleased]
    exact BpfMap.update_self ..
  · intro other different
    rw [remapped.nsLimit, Node.edit_other _ _ different]

theorem sync_returns {resource : Resource} {ns : String} {limit : Int64} {batchSize : Option Int64} {world later : Cluster}
    {turns : List (Request × Option Nat)}
    (ended : Action.Ends s (s.sync resource ns limit batchSize) world turns (.ok ()) later) :
    Returned s resource ns limit world later := by
  unfold sync at ended
  obtain ⟨_, effective, began, _, -, asked, ended⟩ := Program.ends_bind.mp ended
  obtain ⟨off, whole⟩ := effectiveLimit_ends asked
  obtain ⟨limits, _, -, ended⟩ := Program.ends_call.mp ended
  cases limits with
  | some fault => cases (Program.ends_done.mp ended).2.1
  | none =>
    obtain ⟨_, _, _, _, -, counted, ended⟩ := Program.ends_bind.mp ended
    obtain ⟨lookup, _, -, counted⟩ := Program.ends_call.mp counted
    obtain ⟨counters, _, -, counted⟩ := Program.ends_ask.mp counted
    obtain ⟨-, rfl, rfl⟩ := Program.ends_done.mp counted
    cases counters with
    | some fault => cases (Program.ends_done.mp ended).2.1
    | none =>
      obtain ⟨lists, _, -, ended⟩ := Program.ends_call.mp ended
      cases lists with
      | some fault => cases (Program.ends_done.mp ended).2.1
      | none =>
        obtain ⟨maps, _, -, ended⟩ := Program.ends_call.mp ended
        have pods (world : Cluster) (name : String) (node : Node) : (world.editNode name node).pods = world.pods := rfl
        simp only [Cluster.serve, Option.isSome_none, Bool.false_eq_true, ↓reduceIte, Cluster.editNode_self,
          Cluster.editNode_editNode, Node.edit_edit, off.nodes, pods, off.pods] at ended
        split at ended
        · cases (Program.ends_done.mp ended).2.1
        next mapped =>
          obtain ⟨-, -, rfl⟩ := Program.ends_done.mp ended
          have complete := Node.mapPods_completes _ _ _ mapped
          exact .of_mapPods off.pods whole complete (Cluster.editNode_self ..)

end Syncer

/-- The cgroups that the pods of a namespace resolve to, ended pods and errors apart. -/
def PodCgroup (node : Node) (pods : List Pod) (cInfo : CgroupInfo) : Prop :=
  ∃ pod ∈ pods, pod.phase ≠ .succeeded ∧ pod.phase ≠ .failed ∧ ∃ cInfos, node.resolve pod.uid = some cInfos ∧ cInfo ∈ cInfos

theorem mem_resolved {node : Node} {pods : List Pod} {cInfo : CgroupInfo} :
    cInfo ∈ node.resolved pods ↔ PodCgroup node pods cInfo := by
  simp only [Node.resolved, PodCgroup, List.mem_flatMap, List.mem_filter]
  constructor
  · rintro ⟨pod, ⟨member, phase⟩, inside⟩
    cases found : node.resolve pod.uid with
    | none =>
      rw [found] at inside
      exact absurd inside List.not_mem_nil
    | some cInfos =>
      rw [found] at inside
      have going := of_decide_eq_true phase
      exact ⟨pod, member, going.1, going.2, cInfos, found, inside⟩
  · rintro ⟨pod, member, going, unfailed, cInfos, found, inside⟩
    refine ⟨pod, ⟨member, decide_eq_true ⟨going, unfailed⟩⟩, ?_⟩
    rw [found]
    exact inside

/-- The last entry for a cgroup is one of those that were made. -/
theorem Book.entered_path (resource : Resource) (ns : String) (book : Book) {cInfos : List CgroupInfo} {cgroupID : UInt64}
    (inside : cgroupID ∈ identifiers cInfos) :
    ∃ path, (cInfos.foldl (enter resource ns) book).cgroupPaths cgroupID = some path ∧ ⟨cgroupID, path⟩ ∈ cInfos := by
  induction cInfos generalizing book with
  | nil => exact absurd inside (Finset.notMem_empty _)
  | cons cInfo rest ih =>
    by_cases later : cgroupID ∈ identifiers rest
    · obtain ⟨path, found, member⟩ := ih (book.enter resource ns cInfo) later
      exact ⟨path, found, List.mem_cons_of_mem _ member⟩
    · have here : cgroupID = cInfo.cgroupID := by
        have either : cgroupID = cInfo.cgroupID ∨ cgroupID ∈ identifiers rest := by simpa [identifiers] using inside
        exact either.resolve_right later
      subst here
      refine ⟨cInfo.cgroupPath, ?_, List.mem_cons_self⟩
      rw [List.foldl_cons, entered_paths _ _ later]
      exact BpfMap.update_self ..

namespace Syncer
variable {s : Syncer} {world later : Cluster} {quota : ObjectQuota} {turns : List (ControllerRequest × Option Nat)}

theorem whenSet_ends {limit : Option Int64} {sync : Int64 → Action (Except SyncError Unit)}
    {result : Except SyncError Unit} (ended : Flow.Ends s (whenSet limit sync) world turns result later) :
    limit = none ∧ later = world ∨
      ∃ value before, limit = some value ∧ Action.Ends s (sync value) world before result later := by
  cases limit with
  | none => exact .inl ⟨rfl, (Program.ends_done.mp ended).2.2⟩
  | some value =>
    obtain ⟨before, -, ended⟩ := (Program.ends_translate fun _ _ _ => ⟨rfl, rfl⟩).mp ended
    exact .inr ⟨value, before, rfl, ended⟩

/-- What a half of a `SyncFromQuota` that returns without an error has done. -/
def HalfReturned (s : Syncer) (resource : Resource) (ns : String) (limit : Option Int64) (world later : Cluster) : Prop :=
  limit = none ∧ later = world ∨ ∃ value, limit = some value ∧ Returned s resource ns value world later

theorem syncFromQuota_returns (ended : Flow.Ends s (s.syncFromQuota quota) world turns (.ok ()) later) :
    ∃ middle last, HalfReturned s .fd quota.ns quota.spec.fileDescriptors world middle ∧
      HalfReturned s .proc quota.ns quota.spec.processes middle last ∧
      (later = last ∨ quota.spec.fileDescriptors = none ∧ quota.spec.processes = none) := by
  unfold syncFromQuota at ended
  obtain ⟨_, first, middle, _, -, fd, ended⟩ := Program.ends_bind.mp ended
  cases first with
  | error err => cases (Program.ends_done.mp ended).2.1
  | ok =>
    obtain ⟨_, second, last, _, -, proc, ended⟩ := Program.ends_bind.mp ended
    cases second with
    | error err => cases (Program.ends_done.mp ended).2.1
    | ok =>
      refine ⟨middle, last, ?_, ?_, ?_⟩
      · rcases whenSet_ends fd with unset | ⟨limit, _, set, synced⟩
        · exact .inl unset
        · exact .inr ⟨limit, set, sync_returns synced⟩
      · rcases whenSet_ends proc with unset | ⟨limit, _, set, synced⟩
        · exact .inl unset
        · exact .inr ⟨limit, set, sync_returns synced⟩
      · by_cases neither : quota.spec.fileDescriptors = none ∧ quota.spec.processes = none
        · exact .inr neither
        · simp only [neither, ↓reduceIte] at ended
          exact .inl (Program.ends_done.mp ended).2.2

/-- When nothing fails it does return without an error. -/
theorem syncFromQuota_ends (s : Syncer) (quota : ObjectQuota) (world : Cluster) :
    ∃ turns later, Flow.Ends s (s.syncFromQuota quota) world turns (.ok ()) later := by
  obtain ⟨turns, ended, -⟩ := Flow.ends_exec s smooth (s.syncFromQuota quota) world
  have result := congrArg Prod.fst (s.syncFromQuota_smooth quota world)
  exact ⟨turns, _, result ▸ ended⟩

end Syncer

/-- Every cgroup that a pod of the namespace resolves to is tracked, mapped for both
resources and has its path, and nothing else is tracked. What one pod resolves to does
not depend on the others. -/
structure Node.CoversPods (node : Node) (ns : String) (found : CgroupInfo → Prop) : Prop where
  tracked : ∃ known, node.nsCgroups ns = some known ∧ ∀ cgroupID, cgroupID ∈ known ↔ ∃ path, found ⟨cgroupID, path⟩
  mapped : ∀ resource cInfo, found cInfo → (node.bpf.maps resource).cgroup cInfo.cgroupID = some (namespaceKey ns)
  path : ∀ cInfo, found cInfo → ∃ path, node.cgroupPaths cInfo.cgroupID = some path ∧ found ⟨cInfo.cgroupID, path⟩
  named : node.nsNameByKey (namespaceKey ns) = some ns

theorem syncFromQuota_misses_no_pod {s : Syncer} {quota : ObjectQuota} {world later : Cluster}
    {turns : List (ControllerRequest × Option Nat)} (fd : quota.spec.fileDescriptors ≠ none)
    (proc : quota.spec.processes ≠ none) (returned : Flow.Ends s (s.syncFromQuota quota) world turns (.ok ()) later) :
    (later.nodes s.nodeID).CoversPods quota.ns (PodCgroup (world.nodes s.nodeID) (world.pods quota.ns)) := by
  obtain ⟨middle, last, fdHalf, procHalf, ended⟩ := Syncer.syncFromQuota_returns returned
  obtain ⟨fdLimit, -, first⟩ := fdHalf.resolve_left fun unset => fd unset.1
  obtain ⟨procLimit, -, second⟩ := procHalf.resolve_left fun unset => proc unset.1
  obtain rfl := ended.resolve_right fun neither => fd neither.1
  have resolved : (middle.nodes s.nodeID).resolved (middle.pods quota.ns) =
      (world.nodes s.nodeID).resolved (world.pods quota.ns) := by
    unfold Node.resolved
    rw [first.resolve, first.pods]
  have books := second.book
  rw [resolved, first.book] at books
  have member (cgroupID : UInt64) : cgroupID ∈ identifiers ((world.nodes s.nodeID).resolved (world.pods quota.ns)) ↔
      ∃ path, PodCgroup (world.nodes s.nodeID) (world.pods quota.ns) ⟨cgroupID, path⟩ := by
    simp only [identifiers, List.mem_toFinset, List.mem_map, mem_resolved]
    constructor
    · rintro ⟨⟨_, path⟩, found, rfl⟩
      exact ⟨path, found⟩
    · rintro ⟨path, found⟩
      exact ⟨_, found, rfl⟩
  refine ⟨?_, ?_, ?_, ?_⟩
  · refine ⟨_, ?_, member⟩
    change (Node.book _).nsCgroups quota.ns = _
    rw [books, Book.sync_nsCgroups, if_pos rfl, Function.update_self]
  · intro resource cInfo found
    have inside := (member cInfo.cgroupID).mpr ⟨cInfo.cgroupPath, found⟩
    change (Node.book _).cgroup resource cInfo.cgroupID = _
    rw [books, Book.sync_cgroup, Book.sync_cgroup]
    cases resource <;> simp [inside]
  · intro cInfo found
    have inside := (member cInfo.cgroupID).mpr ⟨cInfo.cgroupPath, found⟩
    obtain ⟨path, recorded, entered⟩ := Book.entered_path .proc quota.ns
      (((world.nodes s.nodeID).book.sync .fd quota.ns ((world.nodes s.nodeID).resolved (world.pods quota.ns)) true).named
        quota.ns) inside
    refine ⟨path, ?_, mem_resolved.mp entered⟩
    change (Node.book _).cgroupPaths cInfo.cgroupID = _
    rw [books]
    exact recorded
  · change (Node.book _).nsNameByKey _ = _
    rw [books, Book.sync_named]
    exact BpfMap.update_self ..

/-- One pod that cannot be resolved, next to one whose cgroup is then covered. -/
theorem unresolved_pod_misses_nothing :
    let world : Cluster := { Cluster.empty [] with pods := fun _ => [⟨"lost", .running⟩, ⟨"pod", .running⟩] }.editNode "node"
      { Node.empty with resolve := fun uid => if uid = "pod" then some [⟨7, "path"⟩] else none }
    let quota : ObjectQuota := ⟨"team", "team", 0, ⟨some 10, some 5, none⟩, .empty⟩
    ∃ turns later, Flow.Ends ⟨"node", none⟩ (Syncer.syncFromQuota ⟨"node", none⟩ quota) world turns (.ok ()) later ∧
      (later.nodes "node").CoversPods "team" (PodCgroup (world.nodes "node") (world.pods "team")) := by
  intro world quota
  obtain ⟨turns, later, ended⟩ := Syncer.syncFromQuota_ends ⟨"node", none⟩ quota world
  exact ⟨turns, later, ended, syncFromQuota_misses_no_pod (Option.some_ne_none 10) (Option.some_ne_none 5) ended⟩

end QuotaManager
