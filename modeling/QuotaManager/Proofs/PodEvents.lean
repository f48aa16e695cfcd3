import QuotaManager.PodReconciler
import QuotaManager.Proofs.PodCoverage

/-! What the event of a pod does. The cache is emptied for the pod before the namespace
is synced, so the sync maps what the pod has now; to the controllers the cache is only
a resolver. -/

namespace QuotaManager
open Enforcer

namespace Node

theorem mapScanned_resolve (ns : String) (cInfos : List CgroupInfo) (fails : Nat → Bool) (existing : Finset UInt64) (node : Node) :
    (node.mapScanned ns cInfos fails existing).2.resolve = node.resolve := by
  induction cInfos generalizing fails existing node with
  | nil => rfl
  | cons cInfo rest ih =>
    rw [mapScanned]
    split
    · exact ih _ _ _
    · split
      · exact ih _ _ _
      · dsimp only
        split
        · exact ih _ _ _
        · split
          · rfl
          · exact ih _ _ _

end Node

/-- No request of a controller changes the pods or what the resolver of its node answers. -/
theorem control_frame (world : Cluster) (s : Syncer) (request : ControllerRequest) (fault : Option Nat) :
    (world.control s request fault).2.pods = world.pods ∧
      ((world.control s request fault).2.nodes s.nodeID).resolve = (world.nodes s.nodeID).resolve := by
  have edits (node : Node) (same : node.resolve = (world.nodes s.nodeID).resolve) :
      (world.editNode s.nodeID node).pods = world.pods ∧
        ((world.editNode s.nodeID node).nodes s.nodeID).resolve = (world.nodes s.nodeID).resolve :=
    ⟨rfl, by rw [Cluster.editNode_self, same]⟩
  cases request with
  | sync request =>
    by_cases api : request.editsNode = false
    · obtain ⟨nodes, pods⟩ := serve_api world s api fault
      exact ⟨pods, congrArg (fun nodes => (nodes s.nodeID).resolve) nodes⟩
    · cases request with
      | updateNsLimit | updateNsCounter =>
        simp only [Cluster.control, Cluster.serve]
        split
        · exact ⟨rfl, rfl⟩
        · exact edits _ rfl
      | mapPods resource ns pods => exact edits _ (Node.mapPods_resolve _ _ _ _ _)
      | mapScanned ns existing cInfos => exact edits _ (Node.mapScanned_resolve _ _ _ _ _)
      | _ => exact absurd rfl api
  | deleteNsLimit | deleteNsCounter =>
    simp only [Cluster.control]
    split
    · exact ⟨rfl, rfl⟩
    · exact edits _ rfl
  | removeCgroups ns => exact edits _ (Node.removeCgroups_resolve _ _ _)
  | mapScanned ns existing cInfos => exact edits _ (Node.mapScanned_resolve _ _ _ _ _)
  | getQuota | listQuotas | snapshot => exact ⟨rfl, rfl⟩

namespace ResolverMemory
variable (underlying : String → Option (List CgroupInfo))

theorem resolve_answer (memory : ResolverMemory) (podUID : String) :
    (memory.resolve underlying podUID).1 = (memory.cache podUID).or (underlying podUID) := by
  unfold resolve
  cases memory.cache podUID with
  | some cInfos => rfl
  | none => cases underlying podUID <;> rfl

/-- What a later memory owes to an earlier one: further answers of the resolver as it is now,
and a cache that holds nothing besides them and what it held. -/
structure Owes (before after : ResolverMemory) : Prop where
  given : ∃ fresh, after.given = fresh ++ before.given ∧ (∀ answer ∈ fresh, underlying answer.1 = some answer.2) ∧
    ∀ podUID cInfos, after.cache podUID = some cInfos → before.cache podUID = some cInfos ∨ (podUID, cInfos) ∈ fresh
  kept : ∀ podUID cInfos, before.cache podUID = some cInfos → after.cache podUID = some cInfos

variable {underlying}

theorem Owes.refl (memory : ResolverMemory) : Owes underlying memory memory :=
  ⟨⟨[], rfl, fun _ impossible => absurd impossible List.not_mem_nil, fun _ _ => .inl⟩, fun _ _ => id⟩

theorem Owes.trans {first second third : ResolverMemory} (one : Owes underlying first second) (two : Owes underlying second third) :
    Owes underlying first third := by
  obtain ⟨early, grownOne, answersOne, sourcedOne⟩ := one.given
  obtain ⟨late, grownTwo, answersTwo, sourcedTwo⟩ := two.given
  refine ⟨⟨late ++ early, ?_, ?_, ?_⟩, fun podUID cInfos held => two.kept _ _ (one.kept _ _ held)⟩
  · rw [grownTwo, grownOne, List.append_assoc]
  · exact fun answer member => (List.mem_append.mp member).elim (answersTwo answer) (answersOne answer)
  · intro podUID cInfos cached
    rcases sourcedTwo podUID cInfos cached with held | fresh
    · exact (sourcedOne podUID cInfos held).imp_right (List.mem_append_right _)
    · exact .inr (List.mem_append_left _ fresh)

theorem resolve_owes (memory : ResolverMemory) (podUID : String) : Owes underlying memory (memory.resolve underlying podUID).2 := by
  unfold resolve
  cases cached : memory.cache podUID with
  | some cInfos => exact .refl memory
  | none =>
    cases answered : underlying podUID with
    | none => exact .refl memory
    | some cInfos =>
      have stored (other : String) : (Function.update memory.cache podUID (some cInfos)) other =
          if other = podUID then some cInfos else memory.cache other := Function.update_apply ..
      refine ⟨⟨[(podUID, cInfos)], rfl, fun answer member => ?_, fun other others held => ?_⟩, fun other others held => ?_⟩
      · rw [List.mem_singleton.mp member, answered]
      · replace held := (stored other).symm.trans held
        split at held
        next same =>
          obtain rfl := Option.some.inj held
          exact .inr (List.mem_singleton.mpr (by rw [same]))
        · exact .inl held
      · refine (stored other).trans ?_
        split
        next same =>
          rw [same, cached] at held
          cases held
        · exact held

theorem resolvePods_owes (pods : List Pod) (fault : Option Nat) (memory : ResolverMemory) :
    Owes underlying memory (resolvePods underlying pods fault memory) := by
  induction pods generalizing fault memory with
  | nil => exact .refl memory
  | cons pod rest ih =>
    have here := @resolve_owes underlying memory pod.uid
    rw [resolvePods]
    split
    · exact ih _ _
    · split
      next same =>
        rw [same] at here
        exact here.trans (ih _ _)
      next same =>
        rw [same] at here
        cases fault with
        | none => exact here.trans (ih _ _)
        | some fault =>
          dsimp only
          split
          · exact here
          · exact here.trans (ih _ _)

/-- To ask changes no later answer. -/
theorem Owes.answers {before after : ResolverMemory} (owes : Owes underlying before after) (podUID : String) :
    (after.resolve underlying podUID).1 = (before.resolve underlying podUID).1 := by
  rw [resolve_answer, resolve_answer]
  cases held : before.cache podUID with
  | some cInfos => rw [owes.kept podUID cInfos held]
  | none =>
    cases cached : after.cache podUID with
    | none => rfl
    | some cInfos =>
      obtain ⟨fresh, _, answers, sourced⟩ := owes.given
      rcases sourced podUID cInfos cached with before | given
      · cases held.symm.trans before
      · exact (answers _ given).symm

end ResolverMemory

namespace PodWorld

theorem filled_owes (world : PodWorld) (request : ControllerRequest) (fault : Option Nat) :
    ResolverMemory.Owes world.underlying world.toResolverMemory (world.filled request fault) := by
  unfold filled
  split
  · exact ResolverMemory.resolvePods_owes _ _ _
  · exact .refl _

theorem serve_view (world : PodWorld) (s : Syncer) (request : ControllerRequest) (fault : Option Nat) :
    (world.serve s (.control request) fault).1 = ((world.view s).control s request fault).1 ∧
      (world.serve s (.control request) fault).2.view s = ((world.view s).control s request fault).2 := by
  refine ⟨rfl, ?_⟩
  obtain ⟨pods, resolve⟩ := control_frame (world.view s) s request fault
  have answers : (world.serve s (.control request) fault).2.resolve = world.resolve := by
    funext podUID
    exact (world.filled_owes request fault).answers podUID
  rw [show ((world.view s).nodes s.nodeID).resolve = world.resolve from congrArg Node.resolve (Cluster.editNode_self ..)] at resolve
  generalize made : (world.view s).control s request fault = served at pods resolve
  obtain ⟨answer, cluster⟩ := served
  have node : { cluster.nodes s.nodeID with resolve := world.resolve } = cluster.nodes s.nodeID := by rw [← resolve]
  have whole : { cluster with pods := world.pods } = cluster := by rw [← show cluster.pods = world.pods from pods]
  rw [view, answers]
  simp only [serve, made]
  change Cluster.editNode { cluster with pods := world.pods } s.nodeID { cluster.nodes s.nodeID with resolve := world.resolve } = cluster
  rw [whole, node, Cluster.editNode, Function.update_eq_self]

theorem object_named {world : PodWorld} {ns name : String} {pod : PodObject} (stored : world.object ns name = some pod) :
    pod.ns = ns ∧ pod.name = name := by
  simpa using List.find?_some stored

end PodWorld

section syncEach
variable (s : Syncer) (ns : String) (resource : Resource) (cInfo : CgroupInfo)

def Maps (world : Cluster) : Prop := ((world.nodes s.nodeID).bpf.maps resource).cgroup cInfo.cgroupID = some (namespaceKey ns)

def Tracks (world : Cluster) : Prop := ∃ known, (world.nodes s.nodeID).nsCgroups ns = some known ∧ cInfo.cgroupID ∈ known

/-- A pod of the namespace resolves to the cgroup. -/
def ResolvesTo (world : Cluster) : Prop := cInfo ∈ (world.nodes s.nodeID).resolved (world.pods ns)

variable {s ns resource cInfo} {world later : Cluster}

theorem ResolvesTo.congr (resolves : ResolvesTo s ns cInfo world) (pods : later.pods = world.pods)
    (resolve : (later.nodes s.nodeID).resolve = (world.nodes s.nodeID).resolve) : ResolvesTo s ns cInfo later := by
  unfold ResolvesTo Node.resolved at *
  rwa [pods, resolve]

variable (resource) in
/-- A half that has a limit maps and tracks; one without leaves everything as it was. -/
theorem half_has {half : Resource} {limit : Option Int64} (returned : Syncer.HalfReturned s half ns limit world later)
    (resolves : ResolvesTo s ns cInfo world) : ResolvesTo s ns cInfo later ∧
      (half = resource ∧ limit ≠ none ∨ Maps s ns resource cInfo world → Maps s ns resource cInfo later) ∧
      (limit ≠ none ∨ Tracks s ns cInfo world → Tracks s ns cInfo later) := by
  rcases returned with ⟨rfl, rfl⟩ | ⟨value, rfl, returned⟩
  · exact ⟨resolves, fun either => either.resolve_left fun set => set.2 rfl, fun either => either.resolve_left fun set => set rfl⟩
  · have inside : cInfo.cgroupID ∈ identifiers ((world.nodes s.nodeID).resolved (world.pods ns)) := by
      simp only [identifiers, List.mem_toFinset, List.mem_map]
      exact ⟨cInfo, resolves, rfl⟩
    refine ⟨resolves.congr returned.pods returned.resolve, ?_, ?_⟩
    · intro either
      change (Node.book _).cgroup resource cInfo.cgroupID = _
      rw [returned.book, Book.sync_cgroup]
      split
      · rfl
      next elsewhere => exact either.resolve_left fun set => elsewhere ⟨set.1.symm, inside⟩
    · intro _
      refine ⟨_, ?_, inside⟩
      change (Node.book _).nsCgroups ns = _
      rw [returned.book, Book.sync_nsCgroups, if_pos rfl, Function.update_self]

variable (resource) in
/-- The step lemma: a sync from a quota with a limit. -/
theorem syncFromQuota_has {quota : ObjectQuota} (named : quota.ns = ns)
    (limited : quota.spec.fileDescriptors ≠ none ∨ quota.spec.processes ≠ none) (resolves : ResolvesTo s ns cInfo world) :
    let later := (Flow.exec s smooth (s.syncFromQuota quota) world).2
    ResolvesTo s ns cInfo later ∧ Tracks s ns cInfo later ∧
      (quota.spec.limit resource ≠ none ∨ Maps s ns resource cInfo world → Maps s ns resource cInfo later) := by
  subst named
  obtain ⟨turns, ended, -⟩ := Flow.ends_exec s smooth (s.syncFromQuota quota) world
  rw [congrArg Prod.fst (s.syncFromQuota_smooth quota world)] at ended
  obtain ⟨middle, last, fd, proc, same⟩ := Syncer.syncFromQuota_returns ended
  obtain ⟨first, mapsFd, tracksFd⟩ := half_has resource fd resolves
  obtain ⟨second, mapsProc, tracksProc⟩ := half_has resource proc first
  rw [same.resolve_right fun neither => limited.elim (· neither.1) (· neither.2)]
  refine ⟨second, tracksProc ?_, ?_⟩
  · rcases limited with set | set
    · exact .inr (tracksFd (.inl set))
    · exact .inl set
  · intro either
    cases resource with
    | fd => exact mapsProc (.inr (mapsFd (either.imp_left fun set => ⟨rfl, set⟩)))
    | proc =>
      rcases either with set | before
      · exact mapsProc (.inl ⟨rfl, set⟩)
      · exact mapsProc (.inr (mapsFd (.inr before)))

/-- The loop over the quotas of a namespace, each with a limit. -/
theorem syncEach_has (items : List ObjectQuota) (named : ∀ item ∈ items, item.ns = ns)
    (limited : ∀ item ∈ items, item.spec.fileDescriptors ≠ none ∨ item.spec.processes ≠ none) (resolves : ResolvesTo s ns cInfo world)
    (maps : (∃ item ∈ items, item.spec.limit resource ≠ none) ∨ Maps s ns resource cInfo world)
    (tracks : items ≠ [] ∨ Tracks s ns cInfo world) :
    let later := (Flow.exec s smooth (s.syncEach items) world).2
    Maps s ns resource cInfo later ∧ Tracks s ns cInfo later := by
  induction items generalizing world with
  | nil => exact ⟨maps.resolve_left nofun, tracks.resolve_left (· rfl)⟩
  | cons item rest ih =>
    obtain ⟨namedItem, namedRest⟩ := List.forall_mem_cons.mp named
    obtain ⟨limitedItem, limitedRest⟩ := List.forall_mem_cons.mp limited
    obtain ⟨onward, tracked, mapped⟩ := syncFromQuota_has resource namedItem limitedItem resolves
    simp only [Syncer.syncEach, Flow.exec_bind]
    refine ih namedRest limitedRest onward ?_ (.inr tracked)
    rcases maps with ⟨wanted, member, set⟩ | before
    · rcases List.mem_cons.mp member with rfl | later
      · exact .inr (mapped (.inl set))
      · exact .inl ⟨wanted, later, set⟩
    · exact .inr (mapped (.inr before))

end syncEach

theorem view_has {s : Syncer} {ns : String} {resource : Resource} {cInfo : CgroupInfo} {world : PodWorld} :
    Maps s ns resource cInfo (world.view s) ∧ Tracks s ns cInfo (world.view s) ↔
      Maps s ns resource cInfo world.cluster ∧ Tracks s ns cInfo world.cluster := by
  simp only [Maps, Tracks, PodWorld.view, Cluster.editNode_self]

/-- To a flow of the controllers the cache is only a resolver. -/
theorem PodFlow.exec_lift {α : Type} (s : Syncer) (outcome : PodRequest → Option Nat) (flow : Flow α) (world : PodWorld) :
    (PodFlow.exec s outcome flow.lift world).1 =
        (Flow.exec s (fun request => outcome (.control request)) flow (world.view s)).1 ∧
      (PodFlow.exec s outcome flow.lift world).2.view s =
        (Flow.exec s (fun request => outcome (.control request)) flow (world.view s)).2 := by
  unfold PodFlow.exec Flow.exec Flow.lift
  apply Program.exec_translate_view fun world : PodWorld => world.view s
  intro world request
  exact world.serve_view s request _

/-- For a pod that is running or pending, a reconcile first forgets its cached answer. -/
theorem syncPod_going {s : Syncer} {pod : PodObject} (going : pod.phase = .running ∨ pod.phase = .pending) {α : Type}
    (next : PodFlow α) : (PodReconciler.syncPod s pod).bind (fun _ => next) =
      .ask (.invalidate pod.uid) fun _ => (Flow.lift (s.syncNamespaceFromQuota pod.ns)).bind fun _ => next := by
  simp only [PodReconciler.syncPod, going, ↓reduceIte, Program.bind_eq, Program.call_bind, Program.ask_bind]

/-- It goes on from a world in which nothing is cached for the pod. -/
theorem reconcile_going {s : Syncer} {outcome : PodRequest → Option Nat} {world : PodWorld} {ns name : String} {pod : PodObject}
    (answered : outcome (.getPod ns name) = none) (stored : world.object ns name = some pod)
    (going : pod.phase = .running ∨ pod.phase = .pending) :
    PodFlow.exec s outcome (PodReconciler.reconcile s ns name) world =
      PodFlow.exec s outcome (do
        Flow.lift (s.syncNamespaceFromQuota pod.ns)
        PodReconciler.warn pod
        return .ok ()) { world with cache := Function.update world.cache pod.uid none } := by
  simp only [PodReconciler.reconcile, PodFlow.exec, Program.bind_eq, Program.call_bind, Program.exec_ask, PodWorld.serve, answered,
    Option.isSome_none, Bool.false_eq_true, ↓reduceIte, stored, syncPod_going going]

/-- After the event of a pod that is running or pending, whatever the cache held and
whatever had been mapped: the cgroups that the pod has now are mapped to its namespace
and tracked, provided every quota of the namespace has a limit and one has it for the resource. -/
theorem pod_event_maps (s : Syncer) {world : PodWorld} {ns name : String} {pod : PodObject} {resource : Resource}
    {cInfos : List CgroupInfo} (stored : world.object ns name = some pod) (going : pod.phase = .running ∨ pod.phase = .pending)
    (resolves : world.underlying pod.uid = some cInfos)
    (limited : ∀ quota ∈ world.cluster.quotas, quota.ns = ns → quota.spec.fileDescriptors ≠ none ∨ quota.spec.processes ≠ none)
    (set : ∃ quota ∈ world.cluster.quotas, quota.ns = ns ∧ quota.spec.limit resource ≠ none) :
    let later := (PodFlow.exec s smooth (PodReconciler.reconcile s ns name) world).2
    ∀ cInfo ∈ cInfos, Maps s ns resource cInfo later.cluster ∧ Tracks s ns cInfo later.cluster := by
  intro later cInfo member
  have listed := List.mem_of_find?_eq_some stored
  obtain ⟨rfl, -⟩ := PodWorld.object_named stored
  let emptied : PodWorld := { world with cache := Function.update world.cache pod.uid none }
  have answers : emptied.resolve pod.uid = some cInfos := by
    simp only [emptied, PodWorld.resolve, ResolverMemory.resolve_answer, Function.update_self, resolves, Option.none_or]
  have unfailed : pod.phase ≠ .succeeded ∧ pod.phase ≠ .failed := by
    rcases going with phase | phase
    · rw [phase]
      exact ⟨nofun, nofun⟩
    · rw [phase]
      exact ⟨nofun, nofun⟩
  have warned : PodReconciler.warn pod = pure () := if_neg fun failed => unfailed.2 failed.1
  have ended : later = (PodFlow.exec s smooth (Flow.lift (s.syncNamespaceFromQuota pod.ns)) emptied).2 := by
    change (PodFlow.exec s smooth (PodReconciler.reconcile s pod.ns name) world).2 = _
    rw [reconcile_going rfl stored going, warned]
    simp only [PodFlow.exec, Program.bind_eq, Program.exec_bind]
    rfl
  have found : ResolvesTo s pod.ns cInfo (emptied.view s) := by
    unfold ResolvesTo
    rw [mem_resolved]
    refine ⟨⟨pod.uid, pod.phase⟩, ?_, unfailed.1, unfailed.2, cInfos, ?_, member⟩
    · exact List.mem_map.mpr ⟨pod, List.mem_filter.mpr ⟨listed, decide_eq_true rfl⟩, rfl⟩
    · simp only [PodWorld.view, Cluster.editNode_self, answers]
  obtain ⟨quota, inside, named, limit⟩ := set
  have own : quota ∈ world.cluster.quotas.filter fun quota => quota.ns = pod.ns :=
    List.mem_filter.mpr ⟨inside, decide_eq_true named⟩
  have has := syncEach_has (world.cluster.quotas.filter fun quota => quota.ns = pod.ns)
    (fun item inside => of_decide_eq_true (List.mem_filter.mp inside).2)
    (fun item inside => limited item (List.mem_filter.mp inside).1 (of_decide_eq_true (List.mem_filter.mp inside).2))
    found (.inl ⟨quota, own, limit⟩) (.inl (List.ne_nil_of_mem own))
  have seen := (PodFlow.exec_lift s smooth (s.syncNamespaceFromQuota pod.ns) emptied).2
  rw [← ended] at seen
  simp only [Syncer.syncNamespaceFromQuota, Flow.exec_bind] at seen
  rw [Flow.exec_issue] at seen
  simp only [Cluster.control, smooth, Option.isSome_none, Bool.false_eq_true, ↓reduceIte] at seen
  rw [← view_has, seen]
  exact has

/-- A node with one pod, whose cgroup is not the one that the cache holds for it. -/
def restarted : PodWorld where
  cluster := .empty [⟨"team", "team", 0, ⟨some 10, none, none⟩, .empty⟩]
  objects := [⟨"team", "web", "uid", .running, []⟩]
  cache := Function.update (fun _ => none) "uid" (some [⟨7, "before"⟩])
  given := [("uid", [⟨7, "before"⟩])]
  underlying := Function.update (fun _ => none) "uid" (some [⟨8, "after"⟩])
  warnings := []

theorem pod_event_maps_restarted :
    let later := (PodFlow.exec ⟨"node", none⟩ smooth (PodReconciler.reconcile ⟨"node", none⟩ "team" "web") restarted).2
    ∀ cInfo ∈ [(⟨8, "after"⟩ : CgroupInfo)], Maps ⟨"node", none⟩ "team" .fd cInfo later.cluster ∧
      Tracks ⟨"node", none⟩ "team" cInfo later.cluster :=
  pod_event_maps ⟨"node", none⟩
    (show restarted.object "team" "web" = some ⟨"team", "web", "uid", .running, []⟩ by decide) (.inl rfl) (by decide) (by decide)
    (by decide)

section stale
variable {s : Syncer} {podUID : String} {cInfos : List CgroupInfo}

/-- The resolver has been asked for the pod in between, and has given this answer. -/
def Gave (podUID : String) (cInfos : List CgroupInfo) (before after : PodWorld) : Prop :=
  ∃ fresh, after.given = fresh ++ before.given ∧ (podUID, cInfos) ∈ fresh

/-- An answer that is cached afterwards was cached before, or the resolver has been asked
and has given it. -/
structure Sourced (podUID : String) (cInfos : List CgroupInfo) (before after : PodWorld) : Prop where
  underlying : after.underlying = before.underlying
  grown : before.given <:+ after.given
  cached : after.cache podUID = some cInfos →
    before.cache podUID = some cInfos ∨ before.underlying podUID = some cInfos ∧ Gave podUID cInfos before after

theorem serve_sourced (world : PodWorld) (request : PodRequest) (fault : Option Nat) :
    Sourced podUID cInfos world (world.serve s request fault).2 := by
  cases request with
  | control request =>
    obtain ⟨fresh, grown, answers, sourced⟩ := (world.filled_owes request fault).given
    refine ⟨rfl, ⟨fresh, grown.symm⟩, fun cached => (sourced podUID cInfos cached).imp_right fun member => ?_⟩
    exact ⟨answers _ member, fresh, grown, member⟩
  | getPod ns name => exact ⟨rfl, List.suffix_refl _, .inl⟩
  | eventf pod => exact ⟨rfl, List.suffix_refl _, .inl⟩
  | invalidate other =>
    refine ⟨rfl, List.suffix_refl _, fun cached => ?_⟩
    simp only [PodWorld.serve, Function.update_apply] at cached
    split at cached
    · cases cached
    · exact .inl cached

theorem Sourced.trans {first second third : PodWorld} (one : Sourced podUID cInfos first second)
    (two : Sourced podUID cInfos second third) : Sourced podUID cInfos first third := by
  obtain ⟨early, grownOne⟩ := one.grown
  obtain ⟨late, grownTwo⟩ := two.grown
  have grown : third.given = (late ++ early) ++ first.given := by rw [← grownTwo, ← grownOne, List.append_assoc]
  refine ⟨two.underlying.trans one.underlying, ⟨_, grown.symm⟩, fun cached => ?_⟩
  rcases two.cached cached with held | ⟨answers, fresh, same, member⟩
  · refine (one.cached held).imp_right fun ⟨answers, fresh, same, member⟩ => ⟨answers, _, grown, List.mem_append_right _ ?_⟩
    rwa [List.append_cancel_right (grownOne.trans same)]
  · refine .inr ⟨one.underlying ▸ answers, _, grown, List.mem_append_left _ ?_⟩
    rwa [List.append_cancel_right (grownTwo.trans same)]

theorem play_sourced {α : Type} (outcomes : Nat → Option Nat) (flow : PodFlow α) (world : PodWorld) :
    Sourced podUID cInfos world (PodFlow.play s outcomes flow world).2 :=
  Program.play_kept flow (Sourced podUID cInfos world) (fun middle request outcome sourced =>
    sourced.trans (serve_sourced middle request outcome)) outcomes ⟨rfl, List.suffix_refl _, .inl⟩

/-- The event of a pod reaches the reconciler while the pod is running or pending. -/
def Refreshes (podUID : String) (world : PodWorld) : Activity → Prop
  | .pod ns name outcomes => outcomes 0 = none ∧ ∃ pod, world.object ns name = some pod ∧ pod.uid = podUID ∧
      (pod.phase = .running ∨ pod.phase = .pending)
  | .job _ _ | .cgroups _ _ | .objects _ | .drift _ => False

/-- The reconciler goes on from a world in which nothing is cached for the pod. -/
theorem reconcile_refreshes {ns name : String} {outcomes : Nat → Option Nat} {world : PodWorld}
    (refreshes : Refreshes podUID world (.pod ns name outcomes)) : ∃ flow : PodFlow (Except GetError Unit),
      PodFlow.play s outcomes (PodReconciler.reconcile s ns name) world =
        PodFlow.play s (fun turn => outcomes (turn + 2)) flow
          { world with cache := Function.update world.cache podUID none } := by
  obtain ⟨answered, pod, stored, rfl, going⟩ := refreshes
  refine ⟨do
    Flow.lift (s.syncNamespaceFromQuota pod.ns)
    PodReconciler.warn pod
    return .ok (), ?_⟩
  simp only [PodReconciler.reconcile, PodFlow.play, Program.bind_eq, Program.call_bind, Program.play, PodWorld.serve, answered,
    Option.isSome_none, Bool.false_eq_true, ↓reduceIte, stored, syncPod_going going]

/-- The step lemma: an event of the pod leaves only an answer that the resolver gives on it. -/
theorem step_sourced {world : PodWorld} (activity : Activity) (cached : (world.step s activity).cache podUID = some cInfos) :
    world.cache podUID = some cInfos ∧ ¬ Refreshes podUID world activity ∨
      world.underlying podUID = some cInfos ∧ Gave podUID cInfos world (world.step s activity) := by
  cases activity with
  | pod ns name outcomes =>
    by_cases refreshes : Refreshes podUID world (.pod ns name outcomes)
    · obtain ⟨flow, same⟩ := reconcile_refreshes (s := s) refreshes
      simp only [PodWorld.step, same] at cached ⊢
      rcases (play_sourced _ flow _).cached cached with before | given
      · simp only [Function.update_self, reduceCtorEq] at before
      · exact .inr given
    · exact ((play_sourced outcomes _ world).cached cached).imp_left (⟨·, refreshes⟩)
  | job job outcomes => exact ((play_sourced outcomes _ world).cached cached).imp_left (⟨·, id⟩)
  | cgroups | objects | drift => exact .inl ⟨cached, id⟩

end stale

/-- Whatever happens on a node, in whatever order and with whatever failures: an answer
that is cached for a pod is one that the resolver gave when it was asked, in an activity
since which no event of the pod has emptied the cache. -/
theorem cached_since_event (s : Syncer) {world : PodWorld} (empty : ∀ podUID, world.cache podUID = none) (activities : List Activity)
    {podUID : String} {cInfos : List CgroupInfo}
    (cached : (Trace.run (PodWorld.step s) world activities).cache podUID = some cInfos) :
    ∃ first activity last, activities = first ++ activity :: last ∧
      (Trace.run (PodWorld.step s) world first).underlying podUID = some cInfos ∧
      Gave podUID cInfos (Trace.run (PodWorld.step s) world first) (Trace.run (PodWorld.step s) world (first ++ [activity])) ∧
      Trace.Along (PodWorld.step s) (fun world activity => ¬ Refreshes podUID world activity)
        (Trace.run (PodWorld.step s) world (first ++ [activity])) last := by
  induction activities using List.reverseRecOn with
  | nil => cases (empty podUID).symm.trans cached
  | append_singleton rest final ih =>
    rw [Trace.run_append] at cached
    rcases step_sourced final cached with ⟨before, unheard⟩ | ⟨answers, given⟩
    · obtain ⟨first, activity, last, rfl, answers, given, along⟩ := ih before
      refine ⟨first, activity, last ++ [final], by simp, answers, given, Trace.Along.append_iff.mpr ⟨along, ?_⟩⟩
      rw [← Trace.run_append, List.append_assoc]
      exact ⟨unheard, trivial⟩
    · refine ⟨rest, final, [], rfl, answers, ?_, trivial⟩
      rw [Trace.run_append]
      exact given

/-- A sync asks for a pod's cgroups twice, once for each resource; then they change, and
nobody hears of it. -/
theorem cached_since_event_unheard :
    let activities : List Activity := [.job (.syncNamespace "team" 10 none) fun _ => none,
      .job (.syncProcessNamespace "team" 10 none) fun _ => none, .cgroups "uid" (some [⟨9, "later"⟩])]
    let world : PodWorld := { restarted with cache := fun _ => none }
    ∃ first activity last, activities = first ++ activity :: last ∧
      (Trace.run (PodWorld.step ⟨"node", none⟩) world first).underlying "uid" = some [⟨8, "after"⟩] ∧
      Gave "uid" [⟨8, "after"⟩] (Trace.run (PodWorld.step ⟨"node", none⟩) world first)
        (Trace.run (PodWorld.step ⟨"node", none⟩) world (first ++ [activity])) ∧
      Trace.Along (PodWorld.step ⟨"node", none⟩) (fun world activity => ¬ Refreshes "uid" world activity)
        (Trace.run (PodWorld.step ⟨"node", none⟩) world (first ++ [activity])) last :=
  cached_since_event ⟨"node", none⟩ (fun _ => rfl) _ (by decide +kernel)

end QuotaManager
