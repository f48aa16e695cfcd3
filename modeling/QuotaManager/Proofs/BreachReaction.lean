import QuotaManager.Proofs.Attribution
import QuotaManager.Logic.Trace

/-! Who acts on a breach. The kernel program signals the caller when it is the top
consumer itself; otherwise the handler of breach events finds the name of the
namespace and the path of the top consumer and kills there. -/

namespace QuotaManager
open Enforcer

/-- What an old reply tells a node: which pods belong to a namespace, that a top
consumer is mapped, that a namespace is tracked. -/
def Attests (owners : Owners) (owner : Syncer) : Seen → Cluster → Prop
  | ⟨_, .listPods ns, some pods⟩, _ => ∀ pod ∈ pods, owners.pod pod.uid = ns
  | ⟨_, .lookupNsCounter resource nsKey, some lease⟩, world =>
    TopMapped ((world.nodes owner.nodeID).bpf.maps resource) nsKey lease
  | ⟨_, .tracked ns, some _⟩, world => ((world.nodes owner.nodeID).nsCgroups ns).isSome
  | _, _ => True

/-- Every node attributes its cgroups, and every pod is listed in its namespace. -/
structure Attributes (owners : Owners) (world : Cluster) : Prop where
  nodes : ∀ name, Attributed owners (world.nodes name)
  pods : ∀ ns, ∀ pod ∈ world.pods ns, owners.pod pod.uid = ns

/-- All nodes have kept what they had. -/
def AllGrown (before after : Cluster) : Prop := ∀ name, Grown (before.nodes name) (after.nodes name)

theorem Attests.grown {owners : Owners} {owner : Syncer} {seen : Seen} {before after : Cluster}
    (attests : Attests owners owner seen before) (grown : AllGrown before after) : Attests owners owner seen after := by
  unfold Attests at *
  split
  · exact attests
  · exact (grown owner.nodeID).topMapped attests
  · exact (grown owner.nodeID).tracked _ attests
  · trivial

section serve
variable {owners : Owners} {world : Cluster} {owner : Syncer} {past : List Seen}

theorem Attributes.editNode (kept : Attributes owners world) {name : String} {node : Node}
    (edited : Attributed owners node ∧ Grown (world.nodes name) node) :
    Attributes owners (world.editNode name node) ∧ AllGrown world (world.editNode name node) := by
  refine ⟨⟨?_, kept.pods⟩, ?_⟩
  · intro other
    simp only [Cluster.editNode, Function.update_apply]
    split
    · exact edited.1
    · exact kept.nodes other
  · intro other
    simp only [Cluster.editNode, Function.update_apply]
    split
    next same => rw [same]; exact edited.2
    · exact .refl _

theorem Attributes.renewed (kept : Attributes owners world) (told : ∀ seen ∈ past, Attests owners owner seen world)
    {resource : Resource} {nsKey : UInt64} {existing : Option CpuLease} {limit : Int64} {state : Cluster}
    (looked : (⟨state, .lookupNsCounter resource nsKey, existing⟩ : Seen) ∈ past) :
    AllTopsMapped (((world.nodes owner.nodeID).bpf.maps resource).updateNsCounter nsKey (renewedLease existing limit)) := by
  have top : TopMapped ((world.nodes owner.nodeID).bpf.maps resource) nsKey (renewedLease existing limit) := by
    cases existing with
    | none => exact fun counted => absurd counted (show ¬ (0 : UInt64) < 0 by decide)
    | some lease => exact told _ looked
  exact ((kept.nodes owner.nodeID).tops resource).update rfl rfl top

theorem Attributes.serve (kept : Attributes owners world) (told : ∀ seen ∈ past, Attests owners owner seen world)
    {request : Request} (ruled : Rule (fun ns cInfos => ∀ cInfo ∈ cInfos, owners.Own ns cInfo) owner past request)
    {fault : Option Nat} (succeeds : request.editsNode = true → fault = none) :
    Attributes owners (world.serve owner request fault).2 ∧ AllGrown world (world.serve owner request fault).2 := by
  have node := kept.nodes owner.nodeID
  cases edits : request.editsNode with
  | false =>
    obtain ⟨nodes, pods⟩ := serve_api world owner edits fault
    refine ⟨⟨by rw [nodes]; exact kept.nodes, by rw [pods]; exact kept.pods⟩, ?_⟩
    intro name
    rw [nodes]
    exact .refl _
  | true =>
    obtain rfl := succeeds edits
    cases request with
    | updateNsLimit resource nsKey limit => exact kept.editNode (node.edit resource rfl (node.tops resource))
    | updateNsCounter resource nsKey lease =>
      obtain ⟨state, existing, limit, looked, rfl⟩ := ruled
      exact kept.editNode (node.edit resource rfl (kept.renewed told looked))
    | mapPods resource ns pods =>
      obtain ⟨state, listed⟩ := ruled
      exact kept.editNode (node.mapPods resource (told _ listed))
    | mapScanned ns existing cInfos =>
      obtain ⟨⟨state, tracked⟩, own⟩ := ruled
      exact kept.editNode (node.mapScanned own (told _ tracked) existing)
    | _ => cases edits

theorem Attributes.attests (kept : Attributes owners world) (request : Request) (fault : Option Nat) :
    Attests owners owner ⟨world, request, (world.serve owner request fault).1⟩ world := by
  cases request with
  | listPods ns =>
    cases fault with
    | some fault => trivial
    | none => exact kept.pods ns
  | lookupNsCounter resource nsKey =>
    cases fault with
    | some fault => trivial
    | none =>
      cases leased : ((world.nodes owner.nodeID).bpf.maps resource).nsCounter nsKey with
      | none => simp [Cluster.serve, leased, Attests]
      | some lease =>
        have top := (kept.nodes owner.nodeID).tops resource nsKey lease leased
        simpa [Cluster.serve, leased, Attests] using top
  | tracked ns =>
    cases known : (world.nodes owner.nodeID).nsCgroups ns with
    | none => simp [Cluster.serve, known, Attests]
    | some cgroups => simp [Cluster.serve, known, Attests]
  | _ => trivial

theorem Attributes.drift (kept : Attributes owners world) {change : Change}
    (own : match change with
      | .pods ns pods => ∀ pod ∈ pods, owners.pod pod.uid = ns
      | .resolver _ uid (some cInfos) => ∀ cInfo ∈ cInfos, owners.Own (owners.pod uid) cInfo
      | _ => True) :
    Attributes owners (world.drift change) ∧ AllGrown world (world.drift change) := by
  cases change with
  | tick elapsed => exact ⟨⟨kept.nodes, kept.pods⟩, fun _ => .refl _⟩
  | kernel name event => exact kept.editNode ((kept.nodes name).kernel event)
  | pods ns pods =>
    refine ⟨⟨kept.nodes, ?_⟩, fun _ => .refl _⟩
    intro other pod member
    simp only [Cluster.drift, Function.update_apply] at member
    split at member
    next same => rw [same]; exact own pod member
    · exact kept.pods other pod member
  | resolver name uid answer =>
    have node := kept.nodes name
    refine kept.editNode ⟨⟨node.mapped, node.tops, node.named, ?_⟩, ⟨fun _ _ _ mapped => mapped, fun _ tracked => tracked⟩⟩
    intro other cInfos answered
    simp only [Function.update_apply] at answered
    split at answered
    next same => subst answered; rw [same]; exact own
    · exact node.resolved other cInfos answered

end serve

/-- Clusters in which map writes succeed and every cgroup is found for its owner only. -/
def attributing (owners : Owners) : Machine.Discipline deployment where
  allowed _ operation := ∀ ns cInfos, operation = .scanAndMapCgroups ns cInfos → ∀ cInfo ∈ cInfos, owners.Own ns cInfo
  served _ request fault := request.editsNode = true → fault = none
  drifts _
    | .pods ns pods => ∀ pod ∈ pods, owners.pod pod.uid = ns
    | .resolver _ uid (some cInfos) => ∀ cInfo ∈ cInfos, owners.Own (owners.pod uid) cInfo
    | _ => True
  sound := Attributes owners
  rule := Rule fun ns cInfos => ∀ cInfo ∈ cInfos, owners.Own ns cInfo
  told := Attests owners
  obeys s operation scanned := body_obeys s operation scanned
  serving := by
    intro world owner past request fault kept told ruled succeeds
    obtain ⟨after, grown⟩ := kept.serve told ruled succeeds
    exact ⟨after, (kept.attests request fault).grown grown, fun _ _ attests => attests.grown grown⟩
  drifting := by
    intro world change kept own
    obtain ⟨after, grown⟩ := kept.drift own
    exact ⟨after, fun _ _ attests => attests.grown grown⟩

theorem step_grown {owners : Owners} {system : Deployed} (kept : (attributing owners).Kept system) {choice : Step}
    (valid : (attributing owners).Valid system choice) : AllGrown system.world (deployment.step system choice).world := by
  cases choice with
  | start owner task => exact fun _ => .refl _
  | drift change => exact (kept.sound.drift valid).2
  | turn index outcome =>
    rcases deployment.turn_cases system index outcome with ⟨idle, _⟩ | ⟨worker, request, next, found, rest, stepped⟩
    · rw [idle]
      exact fun _ => .refl _
    · have before := kept.workers worker (List.mem_of_getElem? found)
      have obeys := before.obeys
      rw [rest] at obeys
      rw [stepped]
      exact (kept.sound.serve before.told obeys.1 (valid worker request next found rest)).2

theorem run_mapped {owners : Owners} {system : Deployed} (kept : (attributing owners).Kept system) {choices : List Step}
    (valid : Trace.Along deployment.step (attributing owners).Valid system choices) {name : String} {resource : Resource}
    {cgid nsKey : UInt64} (mapped : ((system.world.nodes name).bpf.maps resource).cgroup cgid = some nsKey) :
    let later := Trace.run deployment.step system choices
    (attributing owners).Kept later ∧ ((later.world.nodes name).bpf.maps resource).cgroup cgid = some nsKey :=
  valid.invariant
    (fun system => (attributing owners).Kept system ∧ ((system.world.nodes name).bpf.maps resource).cgroup cgid = some nsKey)
    ⟨kept, mapped⟩ fun _ _ before valid =>
      ⟨before.1.step valid, (step_grown before.1 valid name).cgroup resource cgid nsKey before.2⟩

section counters

/-- No counter of a cgroup has counted more than `events`. -/
def Counted (events : Nat) (world : Cluster) : Prop :=
  ∀ name resource cgid, (((world.nodes name).bpf.maps resource).cgroupCounter.count cgid).toNat ≤ events

variable {world : Cluster} {events : Nat}

theorem Counted.editNode (counted : Counted events world) {name : String} {edited : Node}
    (same : ∀ resource, (edited.bpf.maps resource).cgroupCounter = ((world.nodes name).bpf.maps resource).cgroupCounter) :
    Counted events (world.editNode name edited) := by
  intro other resource cgid
  simp only [Cluster.editNode, Function.update_apply]
  split
  · rw [same]
    exact counted name resource cgid
  · exact counted other resource cgid

theorem Counted.serve (counted : Counted events world) (owner : Syncer) (request : Request) (fault : Option Nat) :
    Counted events (world.serve owner request fault).2 := by
  have edit (resource : Resource) {change : ResourceMaps → ResourceMaps}
      (same : ∀ maps, (change maps).cgroupCounter = maps.cgroupCounter) :
      Counted events (world.editNode owner.nodeID ((world.nodes owner.nodeID).edit resource change)) := by
    apply counted.editNode
    intro other
    by_cases here : other = resource
    · rw [here, Node.edit_maps, same]
    · rw [Node.edit_other _ _ here]
  cases edits : request.editsNode with
  | false =>
    intro name resource cgid
    rw [(serve_api world owner edits fault).1]
    exact counted name resource cgid
  | true =>
    cases request with
    | updateNsLimit resource nsKey limit =>
      simp only [Cluster.serve]
      split
      · exact counted
      · exact edit resource fun _ => rfl
    | updateNsCounter resource nsKey lease =>
      simp only [Cluster.serve]
      split
      · exact counted
      · exact edit resource fun _ => rfl
    | mapPods resource ns pods => exact counted.editNode (Remapped.mapPods _ _ _ _ _).cgroupCounter
    | mapScanned ns existing cInfos => exact counted.editNode (Remapped.mapScanned _ _ _ _ _).cgroupCounter
    | _ => cases edits

def isKernel : Step → Bool
  | .drift (.kernel _ _) => true
  | _ => false

theorem use_counted (maps : ResourceMaps) (reason : UInt32) (usage : Usage) (cgid : UInt64) :
    ((maps.use reason usage).cgroupCounter.count cgid).toNat ≤ (maps.cgroupCounter.count cgid).toNat + 1 := by
  cases usage with
  | idle => exact Nat.le_succ _
  | acquire task =>
    rw [ResourceMaps.use, (ResourceMaps.check_frame reason maps task).2.2]
    split
    · rw [BpfMap.count_raised]
      split
      next same =>
        rw [same, UInt64.toNat_add]
        exact Nat.mod_le _ _
      · exact Nat.le_succ _
    · exact Nat.le_succ _
  | release task =>
    rw [ResourceMaps.use, (ResourceMaps.release_frame maps task).2.2, BpfMap.count_lowered]
    split
    next same => rw [same]; omega
    · exact Nat.le_succ _

theorem Counted.step {system : Deployed} (counted : Counted events system.world) (choice : Step) :
    Counted (events + [choice].countP isKernel) (deployment.step system choice).world := by
  have more {world : Cluster} (counted : Counted events world) : Counted (events + [choice].countP isKernel) world :=
    fun name resource cgid => Nat.le_add_right_of_le (counted name resource cgid)
  cases choice with
  | start owner task => exact more counted
  | turn index outcome =>
    rcases deployment.turn_cases system index outcome with ⟨idle, _⟩ | ⟨worker, request, next, _, _, stepped⟩
    · rw [idle]
      exact more counted
    · rw [stepped]
      exact more (counted.serve worker.owner request outcome)
  | drift change =>
    cases change with
    | tick | pods => exact more counted
    | resolver name uid answer => exact more (counted.editNode fun _ => rfl)
    | kernel name event =>
      intro other resource cgid
      simp only [Machine.step_drift, deployment, Cluster.drift, Cluster.editNode, Function.update_apply]
      have before := counted name resource cgid
      split
      · rw [Bpf.after_maps]
        have one := use_counted ((system.world.nodes name).bpf.maps resource) resource.reason (event.usage resource) cgid
        simp only [List.countP_singleton, isKernel, ↓reduceIte]
        omega
      · exact more counted other resource cgid

theorem run_counted {system : Deployed} (counted : Counted events system.world) (choices : List Step) :
    Counted (events + choices.countP isKernel) (Trace.run deployment.step system choices).world := by
  induction choices generalizing system events with
  | nil => exact counted
  | cons choice rest ih =>
    have next := ih (counted.step choice)
    rw [Nat.add_assoc, ← List.countP_append] at next
    exact next

end counters

/-- A cluster on which nothing is mapped or counted yet. -/
structure Unmapped (owners : Owners) (world : Cluster) : Prop where
  maps : ∀ name, (world.nodes name).bpf = .empty
  untracked : ∀ name ns, (world.nodes name).nsCgroups ns = none
  resolved : ∀ name uid cInfos, (world.nodes name).resolve uid = some cInfos → ∀ cInfo ∈ cInfos, owners.Own (owners.pod uid) cInfo
  pods : ∀ ns, ∀ pod ∈ world.pods ns, owners.pod pod.uid = ns

theorem Unmapped.attributes {owners : Owners} {world : Cluster} (unmapped : Unmapped owners world) :
    Attributes owners world := by
  refine ⟨fun name => ⟨?_, ?_, ?_, unmapped.resolved name⟩, unmapped.pods⟩
  · intro resource cgid nsKey mapped
    rw [unmapped.maps] at mapped
    cases resource <;> cases mapped
  · intro resource nsKey lease stored
    rw [unmapped.maps] at stored
    cases resource <;> cases stored
  · intro ns tracked
    rw [unmapped.untracked] at tracked
    cases tracked

theorem Unmapped.counted {owners : Owners} {world : Cluster} (unmapped : Unmapped owners world) : Counted 0 world := by
  intro name resource cgid
  rw [unmapped.maps]
  cases resource <;> exact Nat.le_refl _

theorem reported_acquire {bpf : Bpf} {event : KernelEvent} {evt : BreachEvent}
    (emitted : (react bpf event).1.emitted = some evt) : ∃ resource task, event = Resource.acquire resource task := by
  cases event with
  | fdInstall task => exact ⟨.fd, task, rfl⟩
  | kernelClone task => exact ⟨.proc, task, rfl⟩
  | filpClose task file =>
    simp only [react, trackCloseFd] at emitted
    split at emitted
    · cases emitted
    · split at emitted <;> cases emitted
  | doExit task => cases emitted

/-- Who is counted without wrapping around stands in the record of the lease, or is above it. -/
theorem noted_counted {maps : ResourceMaps} {task : Task} {lease : CpuLease}
    (few : (maps.cgroupCounter.count task.cgid).toNat + 1 < 2 ^ 64) : 0 < (maps.noted task lease).topCount := by
  have raised : (maps.cgroupCounter.count task.cgid + 1).toNat = (maps.cgroupCounter.count task.cgid).toNat + 1 := by
    rw [UInt64.toNat_add]
    exact Nat.mod_eq_of_lt few
  simp only [ResourceMaps.noted, CpuLease.noteTop, UInt64.lt_iff_toNat_lt, UInt64.toNat_zero, gt_iff_lt]
  split
  · simp only
    omega
  · omega

/-- The breach that a node reports: the top consumer is mapped, and only the caller
itself is signalled. -/
theorem reported_top {owners : Owners} {node : Node} (attributed : Attributed owners node) {event : KernelEvent}
    {evt : BreachEvent} (emitted : (react node.bpf event).1.emitted = some evt)
    (few : ∀ resource cgid, ((node.bpf.maps resource).cgroupCounter.count cgid).toNat + 1 < 2 ^ 64) :
    ∃ resource, evt.reason = Resource.reason resource ∧ (node.bpf.maps resource).cgroup evt.topCgid = some evt.nsKey ∧
      (node.bpf.maps resource).cgroup evt.cgid = some evt.nsKey ∧
      ((react node.bpf event).1.signalled = true ↔ evt.cgid = evt.topCgid) := by
  obtain ⟨resource, task, rfl⟩ := reported_acquire emitted
  rw [resource.react_acquire] at emitted ⊢
  obtain ⟨limit, lease, mapped, enforced, caller, reason, top, stopped⟩ :=
    ResourceMaps.check_reports resource.reason emitted
  refine ⟨resource, reason, ?_, by rw [caller]; exact mapped, ?_⟩
  · have noted := (attributed.tops resource evt.nsKey lease enforced.leased).noted mapped
    rw [top]
    exact noted (noted_counted (few resource task.cgid))
  · rw [caller, ← stopped]
    simp only [Outcome.reaction, beq_iff_eq]
    rfl

/-- The handler kills exactly when the kernel has not signalled the caller. -/
theorem handled_iff {owners : Owners} {node : Node} (attributed : Attributed owners node) {resource : Resource}
    {evt : BreachEvent} (mapped : (node.bpf.maps resource).cgroup evt.topCgid = some evt.nsKey) :
    (∃ path, node.cgroupPaths evt.topCgid = some path ∧ (handleBreachEvent node evt).killed = some path) ↔
      evt.cgid ≠ evt.topCgid := by
  obtain ⟨nonzero, _, path, name⟩ := attributed.mapped resource evt.topCgid evt.nsKey mapped
  obtain ⟨path, found⟩ := Option.isSome_iff_exists.mp path
  obtain ⟨ns, known⟩ := Option.isSome_iff_exists.mp name
  simp only [handleBreachEvent, known, found, nonzero, false_or]
  constructor
  · rintro ⟨_, _, killed⟩ same
    rw [if_pos same.symm] at killed
    cases killed
  · intro different
    exact ⟨path, rfl, by rw [if_neg (Ne.symm different)]⟩

/-- Every breach that is reported names a mapped top consumer of the caller's own
namespace, and from then on exactly one layer acts: the kernel has signalled the
caller, or the handler kills below the recorded path of the top consumer. -/
theorem breach_acted_on_once {owners : Owners} {start : Cluster} (unmapped : Unmapped owners start) {first last : List Step}
    {name : String} {event : KernelEvent}
    (valid : Trace.Along deployment.step (attributing owners).Valid (Machine.boot start)
      (first ++ .drift (.kernel name event) :: last))
    (few : (first ++ .drift (.kernel name event) :: last).countP isKernel < 2 ^ 64) {evt : BreachEvent}
    (emitted : (react ((Trace.run deployment.step (Machine.boot start) first).world.nodes name).bpf event).1.emitted = some evt) :
    let met := (Trace.run deployment.step (Machine.boot start) first).world.nodes name
    let later := (Trace.run deployment.step (Machine.boot start) (first ++ .drift (.kernel name event) :: last)).world.nodes name
    evt.topCgid ≠ 0 ∧
      (∃ resource, evt.reason = Resource.reason resource ∧ (met.bpf.maps resource).cgroup evt.topCgid = some evt.nsKey) ∧
      evt.nsKey = namespaceKey (owners.cgroup evt.cgid) ∧ owners.cgroup evt.topCgid = owners.cgroup evt.cgid ∧
      Xor ((react met.bpf event).1.signalled = true)
        (∃ path, later.cgroupPaths evt.topCgid = some path ∧ (handleBreachEvent later evt).killed = some path) := by
  intro met later
  rw [Trace.Along.append_iff] at valid
  obtain ⟨valid_first, valid_rest⟩ := valid
  have kept := Machine.Discipline.Kept.run (attributing owners) unmapped.attributes valid_first
  have counted : Counted (0 + first.countP isKernel) (Trace.run deployment.step (Machine.boot start) first).world :=
    run_counted unmapped.counted first
  have attributed : Attributed owners met := kept.sound.nodes name
  have room (resource : Resource) (cgid : UInt64) : ((met.bpf.maps resource).cgroupCounter.count cgid).toNat + 1 < 2 ^ 64 := by
    have below : ((met.bpf.maps resource).cgroupCounter.count cgid).toNat ≤ 0 + first.countP isKernel :=
      counted name resource cgid
    rw [List.countP_append, List.countP_cons_of_pos rfl] at few
    omega
  obtain ⟨resource, reason, top, caller, signalled⟩ := reported_top attributed emitted room
  obtain ⟨nonzero, top_key, _, _⟩ := attributed.mapped resource evt.topCgid evt.nsKey top
  obtain ⟨_, caller_key, _, _⟩ := attributed.mapped resource evt.cgid evt.nsKey caller
  refine ⟨nonzero, ⟨resource, reason, top⟩, caller_key, owners.injective _ _ (top_key.symm.trans caller_key), ?_⟩
  obtain ⟨kept_later, mapped_later⟩ := run_mapped kept valid_rest top
  rw [← Trace.run_append] at kept_later mapped_later
  rw [signalled, handled_iff (kept_later.sound.nodes name) mapped_later]
  by_cases same : evt.cgid = evt.topCgid
  · exact .inl ⟨same, not_not.mpr same⟩
  · exact .inr ⟨same, same⟩

/-- Cgroup 7 has taken the only descriptor. When 8 asks for one, 8 is not signalled and 7 is killed. -/
theorem breach_acted_on_once_handler :
    let owners : Owners := ⟨fun _ => "team", fun _ => "team", fun _ _ _ => rfl⟩
    let install (cgid : UInt64) : KernelEvent := .fdInstall ⟨cgid, 0, 0, 0, true⟩
    let first : List Step := [.drift (.pods "team" [⟨"pod", .running⟩]),
      .drift (.resolver "a" "pod" (some [⟨7, "/seven"⟩, ⟨8, "/eight"⟩])), .start ⟨"a", none⟩ (.syncNamespace "team" 1 none)] ++
      List.replicate 5 (.turn 0 none) ++ [.drift (.kernel "a" (install 7))]
    let evt : BreachEvent := ⟨namespaceKey "team", 8, 0, 0, 0, 7⟩
    let met := (Trace.run deployment.step (Machine.boot (.empty [])) first).world.nodes "a"
    let later := (Trace.run deployment.step (Machine.boot (.empty [])) (first ++ [.drift (.kernel "a" (install 8))])).world.nodes "a"
    evt.topCgid ≠ 0 ∧
      (∃ resource, evt.reason = Resource.reason resource ∧ (met.bpf.maps resource).cgroup evt.topCgid = some evt.nsKey) ∧
      evt.nsKey = namespaceKey (owners.cgroup evt.cgid) ∧ owners.cgroup evt.topCgid = owners.cgroup evt.cgid ∧
      Xor ((react met.bpf (install 8)).1.signalled = true)
        (∃ path, later.cgroupPaths evt.topCgid = some path ∧ (handleBreachEvent later evt).killed = some path) := by
  intro owners install first evt
  have unmapped : Unmapped owners (.empty []) := ⟨fun _ => rfl, fun _ _ => rfl, nofun, nofun⟩
  have emitted : (react ((Trace.run deployment.step (Machine.boot (.empty [])) first).world.nodes "a").bpf (install 8)).1.emitted =
      some evt := by decide +kernel
  refine breach_acted_on_once unmapped ?_ (by decide +kernel) emitted
  apply Trace.Along.of_mem
  simp [first, install, attributing, Machine.Discipline.Valid, Owners.Own, owners]

end QuotaManager
