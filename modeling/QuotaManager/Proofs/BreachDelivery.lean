import QuotaManager.BreachPipeline
import QuotaManager.Logic.Record
import QuotaManager.Proofs.BreachRecords
import QuotaManager.Proofs.LimitCheck

/-! Breaches on a little-endian host. The watcher gets the events that the kernel has
submitted, in their order and each of them once, and a namespace's counters are short of
its refused calls by the records that are pending or found no room. -/

namespace QuotaManager
open Enforcer

namespace Pipeline

/-- The event that a kernel program submits. -/
def submitted (pipeline : Pipeline) : PipelineEvent → List BreachEvent
  | .kernel event => (react pipeline.node.bpf event).1.emitted.toList
  | .controller _ | .read _ => []

/-- The event that the watcher gets. -/
def delivered (pipeline : Pipeline) : PipelineEvent → List BreachEvent
  | .read false => (pipeline.events.head?.bind watch).toList
  | .read true | .kernel _ | .controller _ => []

/-- The events that are still in the ring buffer. -/
def pending (pipeline : Pipeline) : List BreachEvent := pipeline.events.filterMap watch

theorem fair (pipeline : Pipeline) (event : PipelineEvent) :
    pipeline.delivered event ++ (pipeline.step .little event).pending = pipeline.pending ++ pipeline.submitted event := by
  cases event with
  | kernel event =>
    simp only [delivered, pending, step, submitted, List.nil_append, List.filterMap_append]
    congr 1
    cases (react pipeline.node.bpf event).1.emitted with
    | none => rfl
    | some evt => simp [watch_little]
  | controller node => exact (List.append_nil _).symm
  | read fails =>
    cases fails with
    | true => exact (List.append_nil _).symm
    | false =>
      simp only [submitted, List.append_nil, delivered, step, Bool.false_eq_true, ↓reduceIte]
      obtain ⟨node, events, rejected, killed⟩ := pipeline
      cases events with
      | nil => rfl
      | cons sample rest =>
        simp only [List.head?_cons, Option.bind_some, received, pending, List.filterMap_cons]
        cases watch sample with
        | none => rfl
        | some evt => rfl

/-- The path that is passed to `KillCgroupProcs`. -/
def slain (pipeline : Pipeline) (event : PipelineEvent) : List String :=
  (pipeline.delivered event).filterMap fun evt => (handleBreachEvent pipeline.node evt).killed

theorem step_killed (host : ByteOrder) (pipeline : Pipeline) (event : PipelineEvent) :
    (pipeline.step host event).killed = pipeline.killed ++ pipeline.slain event := by
  cases event with
  | kernel | controller => exact (List.append_nil _).symm
  | read fails =>
    cases fails with
    | true => exact (List.append_nil _).symm
    | false =>
      obtain ⟨node, events, rejected, killed⟩ := pipeline
      cases events with
      | nil => exact (List.append_nil _).symm
      | cons sample rest =>
        simp only [step, Bool.false_eq_true, ↓reduceIte, received, slain, delivered, List.head?_cons, Option.bind_some]
        cases watch sample with
        | none => exact (List.append_nil _).symm
        | some evt => cases dead : (handleBreachEvent node evt).killed <;> simp [handle, dead]

theorem step_rejected (host : ByteOrder) (pipeline : Pipeline) (event : PipelineEvent) (resource : Resource) (ns : String) :
    (pipeline.step host event).rejected resource ns = pipeline.rejected resource ns +
      (pipeline.delivered event).countP fun evt => (handleBreachEvent pipeline.node evt).rejected = some (resource, ns) := by
  cases event with
  | kernel | controller => rfl
  | read fails =>
    cases fails with
    | true => rfl
    | false =>
      obtain ⟨node, events, rejected, killed⟩ := pipeline
      cases events with
      | nil => rfl
      | cons sample rest =>
        simp only [step, Bool.false_eq_true, ↓reduceIte, received, delivered, List.head?_cons, Option.bind_some]
        cases watch sample with
        | none => rfl
        | some evt =>
          simp only [handle, Option.toList_some, List.countP_singleton, decide_eq_true_eq]
          split <;> rfl

end Pipeline

/-- The watcher gets the events that were submitted, each once and in their order; what it
has not got is in the ring buffer. It kills for what it gets, in that order. -/
theorem breaches_in_order (pipeline : Pipeline) (events : List PipelineEvent) :
    let last := Trace.run (Pipeline.step .little) pipeline events
    Trace.log (Pipeline.step .little) Pipeline.delivered pipeline events ++ last.pending =
        pipeline.pending ++ Trace.log (Pipeline.step .little) Pipeline.submitted pipeline events ∧
      last.killed = pipeline.killed ++ Trace.log (Pipeline.step .little) Pipeline.slain pipeline events := by
  exact ⟨Trace.log_queue Pipeline.fair pipeline events, Trace.log_growth (Pipeline.step_killed .little) pipeline events⟩

namespace Pipeline

/-- The event reports a call of a resource in the namespace of a key. -/
def reports (resource : Resource) (nsKey : UInt64) (evt : BreachEvent) : Bool :=
  evt.nsKey = nsKey ∧ (if evt.reason = 0 then Resource.fd else .proc) = resource

/-- For each refused call of a resource, whether its record found room. -/
def refused (resource : Resource) (nsKey : UInt64) (pipeline : Pipeline) : PipelineEvent → List Bool
  | .kernel event =>
    match event.usage resource with
    | .acquire task =>
      let maps := pipeline.node.bpf.maps resource
      if maps.cgroup task.cgid = some nsKey ∧ (maps.check task resource.reason).1.verdict ≠ .allow then [task.reserved] else []
    | _ => []
  | .controller _ | .read _ => []

end Pipeline

/-- A limit check submits a record of the caller's namespace when it refuses a call and
there is room, and no record else. -/
theorem check_submits (maps : ResourceMaps) (task : Task) (resource : Resource) (nsKey : UInt64) :
    (maps.check task resource.reason).1.emitted.toList.countP (Pipeline.reports resource nsKey) =
      (if maps.cgroup task.cgid = some nsKey ∧ (maps.check task resource.reason).1.verdict ≠ .allow then [task.reserved]
        else []).countP id := by
  have passes (allowed : (maps.check task resource.reason).1 = .pass) :
      (maps.check task resource.reason).1.emitted.toList.countP (Pipeline.reports resource nsKey) =
        (if maps.cgroup task.cgid = some nsKey ∧ (maps.check task resource.reason).1.verdict ≠ .allow then [task.reserved]
          else []).countP id := by
    rw [allowed, if_neg fun refused => refused.2 rfl]
    rfl
  cases mapped : maps.cgroup task.cgid with
  | none =>
    rw [← mapped]
    exact passes (by rw [ResourceMaps.check_unmapped _ mapped])
  | some key =>
    by_cases counted : ∃ limit lease, maps.Enforced key limit lease
    · obtain ⟨limit, lease, enforced⟩ := counted
      obtain ⟨budget, breached | ⟨_, accepted⟩⟩ := CpuLease.charge_cases task key resource.reason (maps.noted task lease) limit
      · rw [ResourceMaps.check_enforced _ mapped enforced, breached]
        have refuses : (CpuLease.breach { maps.noted task lease with leaseBudget := budget } task key resource.reason).1.verdict ≠
            .allow := by
          simp only [CpuLease.breach]
          split <;> decide
        have reason : (if resource.reason = 0 then Resource.fd else .proc) = resource := by cases resource <;> rfl
        simp only [refuses, not_false_eq_true, and_true, Option.some.injEq, ne_eq]
        simp only [CpuLease.breach, emitBreachEvent]
        cases task.reserved <;> by_cases same : key = nsKey <;> simp [Pipeline.reports, same, reason]
      · rw [← mapped]
        exact passes (by rw [ResourceMaps.check_enforced _ mapped enforced, accepted])
    · rw [← mapped]
      exact passes (by rw [ResourceMaps.check_unenforced _ mapped fun limit lease enforced => counted ⟨limit, lease, enforced⟩])

namespace Pipeline

/-- A check of the other resource reports nothing of this one. -/
theorem check_other_resource (maps : ResourceMaps) (task : Task) {resource other : Resource} (different : other ≠ resource)
    (nsKey : UInt64) : (maps.check task other.reason).1.emitted.toList.countP (reports resource nsKey) = 0 := by
  apply List.countP_eq_zero.mpr
  intro evt member
  obtain ⟨_, _, _, _, _, reason, _⟩ := ResourceMaps.check_reports other.reason (Option.mem_toList.mp member)
  simp only [reports, reason, decide_eq_true_eq]
  rintro ⟨_, same⟩
  apply different
  rw [← same]
  cases other <;> rfl

theorem submitted_refused (resource : Resource) (nsKey : UInt64) (pipeline : Pipeline) (event : PipelineEvent) :
    (pipeline.submitted event).countP (reports resource nsKey) = (pipeline.refused resource nsKey event).countP id := by
  cases event with
  | controller | read => rfl
  | kernel event =>
    cases event with
    | fdInstall task =>
      cases resource with
      | fd => exact check_submits pipeline.node.bpf.fd task .fd nsKey
      | proc => exact check_other_resource pipeline.node.bpf.fd task (by decide) nsKey
    | kernelClone task =>
      cases resource with
      | fd => exact check_other_resource pipeline.node.bpf.proc task (by decide) nsKey
      | proc => exact check_submits pipeline.node.bpf.proc task .proc nsKey
    | filpClose task file =>
      have silent : (trackCloseFd pipeline.node.bpf task file).1 = .none := by
        unfold trackCloseFd
        split
        · rfl
        · split <;> rfl
      have unchecked : pipeline.refused resource nsKey (.kernel (.filpClose task file)) = [] := by
        rcases file with _ | refs <;> cases resource
        · rfl
        · rfl
        · simp only [refused, KernelEvent.usage]
          by_cases shared : refs > 1 <;> simp [shared]
        · rfl
      rw [unchecked]
      simp only [submitted, react, silent]
      rfl
    | doExit task => cases resource <;> rfl

/-- The watcher knows the namespace by its key, and by no other. -/
def Named (ns : String) (pipeline : Pipeline) (event : PipelineEvent) : Prop :=
  event = .read false → ∀ nsKey, pipeline.node.nsNameByKey nsKey = some ns ↔ nsKey = namespaceKey ns

theorem step_names (host : ByteOrder) (pipeline : Pipeline) (event : PipelineEvent) (uncontrolled : ∀ node, event ≠ .controller node) :
    (pipeline.step host event).node.nsNameByKey = pipeline.node.nsNameByKey := by
  cases event with
  | kernel event => rfl
  | controller node => exact absurd rfl (uncontrolled node)
  | read fails =>
    obtain ⟨node, events, rejected, killed⟩ := pipeline
    cases fails with
    | true => rfl
    | false =>
      cases events with
      | nil => rfl
      | cons sample rest =>
        simp only [step, Bool.false_eq_true, ↓reduceIte, received]
        cases watch sample <;> rfl

/-- The name stays known when the controllers keep it. -/
theorem named_along (host : ByteOrder) {ns : String} {pipeline : Pipeline} {events : List PipelineEvent}
    (known : ∀ nsKey, pipeline.node.nsNameByKey nsKey = some ns ↔ nsKey = namespaceKey ns)
    (kept : ∀ node, .controller node ∈ events → ∀ nsKey, node.nsNameByKey nsKey = some ns ↔ nsKey = namespaceKey ns) :
    Trace.Along (step host) (Named ns) pipeline events := by
  induction events generalizing pipeline with
  | nil => trivial
  | cons event rest ih =>
    refine ⟨fun _ => known, ih ?_ fun node member => kept node (List.mem_cons_of_mem _ member)⟩
    cases event with
    | controller node => exact kept node List.mem_cons_self
    | kernel event =>
      rw [pipeline.step_names host (.kernel event) nofun]
      exact known
    | read fails =>
      rw [pipeline.step_names host (.read fails) nofun]
      exact known

theorem delivered_rejected {ns : String} {pipeline : Pipeline} {event : PipelineEvent} (named : pipeline.Named ns event)
    (resource : Resource) : (pipeline.step .little event).rejected resource ns =
      pipeline.rejected resource ns + (pipeline.delivered event).countP (reports resource (namespaceKey ns)) := by
  rw [step_rejected]
  congr 1
  apply List.countP_congr
  intro evt member
  have read : event = .read false := by
    cases event with
    | kernel | controller => cases member
    | read fails =>
      cases fails with
      | true => cases member
      | false => rfl
  have known := named read evt.nsKey
  have handled : (handleBreachEvent pipeline.node evt).rejected =
      (pipeline.node.nsNameByKey evt.nsKey).map fun name => (if evt.reason = 0 then Resource.fd else .proc, name) := by
    unfold handleBreachEvent
    cases pipeline.node.nsNameByKey evt.nsKey with
    | none => rfl
    | some name =>
      simp only [Option.map_some]
      split
      · rfl
      · split <;> rfl
  simp only [handled, reports, decide_eq_true_eq, Option.map_eq_some_iff, Prod.mk.injEq]
  constructor
  · rintro ⟨name, found, reason, rfl⟩
    exact ⟨known.mp found, reason⟩
  · rintro ⟨key, reason⟩
    exact ⟨ns, known.mpr key, reason, rfl⟩

end Pipeline

/-- No refused call is counted twice, and none is lost: each is in the namespace's
counter, in the ring buffer, or there was no room for its record. -/
theorem rejections_conserved (resource : Resource) {ns : String} {pipeline : Pipeline} {events : List PipelineEvent}
    (named : Trace.Along (Pipeline.step .little) (Pipeline.Named ns) pipeline events) :
    let last := Trace.run (Pipeline.step .little) pipeline events
    let refused := Trace.log (Pipeline.step .little) (Pipeline.refused resource (namespaceKey ns)) pipeline events
    last.rejected resource ns + last.pending.countP (Pipeline.reports resource (namespaceKey ns)) + refused.count false =
      pipeline.rejected resource ns + pipeline.pending.countP (Pipeline.reports resource (namespaceKey ns)) + refused.length := by
  intro last refused
  have counted := Trace.log_counter (fun pipeline : Pipeline => pipeline.rejected resource ns) named
    fun _ _ named => Pipeline.delivered_rejected named resource
  have order := congrArg (List.countP (Pipeline.reports resource (namespaceKey ns)))
    (Trace.log_queue Pipeline.fair pipeline events)
  rw [List.countP_append, List.countP_append,
    Trace.log_countP (Pipeline.submitted_refused resource (namespaceKey ns)) pipeline events] at order
  change _ + last.pending.countP _ = _ + refused.countP id at order
  have split : refused.length = refused.countP id + refused.count false := by
    rw [List.length_eq_countP_add_countP id, List.count]
    congr 1
    apply List.countP_congr
    intro found _
    cases found <;> decide
  change last.rejected resource ns = _ at counted
  omega

/-- Three of four installs are refused: one is counted, one is pending, and one found no room. -/
theorem rejections_conserved_full :
    let maps := (ResourceMaps.mapping (namespaceKey "team") [7, 8]).resync (namespaceKey "team") ⟨1, by decide⟩
    let start := Pipeline.empty { Node.empty with
      bpf := ⟨maps, .empty⟩, nsNameByKey := BpfMap.empty.update (namespaceKey "team") "team" }
    let install (cgid : UInt64) (reserved : Bool) : PipelineEvent := .kernel (.fdInstall ⟨cgid, 0, 0, 0, reserved⟩)
    let events := [install 7 true, install 8 true, install 8 true, .read true, install 7 false, .read false]
    let last := Trace.run (Pipeline.step .little) start events
    last.rejected .fd "team" = 1 ∧ last.pending.length = 1 ∧
      last.rejected .fd "team" + last.pending.countP (Pipeline.reports .fd (namespaceKey "team")) +
          (Trace.log (Pipeline.step .little) (Pipeline.refused .fd (namespaceKey "team")) start events).count false =
        start.rejected .fd "team" + start.pending.countP (Pipeline.reports .fd (namespaceKey "team")) +
          (Trace.log (Pipeline.step .little) (Pipeline.refused .fd (namespaceKey "team")) start events).length := by
  intro maps start install events last
  refine ⟨by decide +kernel, by decide +kernel, rejections_conserved .fd (Pipeline.named_along .little ?_ ?_)⟩
  · intro nsKey
    by_cases same : nsKey = namespaceKey "team"
    · simp [start, Pipeline.empty, same]
    · simp [start, Pipeline.empty, same, BpfMap.update_of_ne, BpfMap.empty]
  · intro node member
    simp [events, install] at member

end QuotaManager
