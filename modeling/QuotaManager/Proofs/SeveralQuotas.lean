import QuotaManager.Proofs.SpecConvergence
import QuotaManager.Proofs.StatusUpdate

/-! Several quotas in one namespace. They all write the same two map entries, and a
deletion or a quota without limits deletes both; so the limits in force are those of
whichever reconcile wrote or deleted last. -/

namespace QuotaManager
open Enforcer

namespace Cluster

/-- Somebody creates a quota or updates its spec. -/
def putQuota (world : Cluster) (ns name : String) (spec : ObjectQuotaSpec) : Cluster :=
  { world with
    revision := world.revision + 1
    quotas := ⟨ns, name, world.revision + 1, spec, (world.quota ns name).elim .empty (·.status)⟩ ::
      world.quotas.filter fun quota => ¬ (quota.ns = ns ∧ quota.name = name) }

def deleteQuota (world : Cluster) (ns name : String) : Cluster :=
  { world with quotas := world.quotas.filter fun quota => ¬ (quota.ns = ns ∧ quota.name = name) }

def specOf (world : Cluster) (ns name : String) : Option ObjectQuotaSpec := (world.quota ns name).map (·.spec)

theorem quota_filter (world : Cluster) {ns name other : String} (different : other ≠ name) :
    (world.quotas.filter fun quota => ¬ (quota.ns = ns ∧ quota.name = name)).find? (fun quota =>
      quota.ns = ns ∧ quota.name = other) = world.quota ns other := by
  rw [List.find?_filter, quota]
  congr 1
  funext quota
  by_cases here : quota.name = other
  · have away : quota.name ≠ name := here ▸ different
    simp [here, different]
  · simp [here]

theorem specOf_putQuota (world : Cluster) (ns name : String) (spec : ObjectQuotaSpec) (other : String) :
    (world.putQuota ns name spec).specOf ns other = if other = name then some spec else world.specOf ns other := by
  unfold specOf quota putQuota
  by_cases same : other = name
  · simp [same]
  · rw [if_neg same, List.find?_cons_of_neg (by simpa using Ne.symm same), world.quota_filter same]
    rfl

theorem specOf_deleteQuota (world : Cluster) (ns name other : String) :
    (world.deleteQuota ns name).specOf ns other = if other = name then none else world.specOf ns other := by
  unfold specOf quota deleteQuota
  by_cases same : other = name
  · subst same
    rw [if_pos rfl, Option.map_eq_none_iff, List.find?_filter, List.find?_eq_none]
    intro quota _
    by_cases here : quota.ns = ns <;> simp [here]
  · rw [if_neg same, world.quota_filter same]
    rfl

theorem drift_limit (world : Cluster) (change : Change) (name : String) (resource : Resource) (ns : String) :
    ((world.drift change).nodes name).limit resource ns = (world.nodes name).limit resource ns := by
  cases change with
  | tick | pods => rfl
  | kernel other event =>
    by_cases same : name = other
    · subst same
      simp only [drift, editNode_self, Node.limit, Bpf.after_maps, ResourceMaps.use_nsLimit]
    · simp only [drift, editNode_other _ _ same]
  | resolver other uid answer =>
    by_cases same : name = other
    · subst same
      simp only [drift, editNode_self, Node.limit]
    · simp only [drift, editNode_other _ _ same]

end Cluster

/-- Changes of the objects of one namespace, reconciles of them, and other changes. -/
inductive QuotaEvent where
  | put (name : String) (spec : ObjectQuotaSpec)
  | delete (name : String)
  | reconcile (name : String)
  | drift (change : Change)

abbrev Specs := String → Option ObjectQuotaSpec

namespace QuotaEvent

/-- The objects after the event. -/
def specs (before : Specs) : QuotaEvent → Specs
  | .put name spec => Function.update before name (some spec)
  | .delete name => Function.update before name none
  | .reconcile _ | .drift _ => before

def after (s : Syncer) (ns : String) (world : Cluster) : QuotaEvent → Cluster
  | .put name spec => world.putQuota ns name spec
  | .delete name => world.deleteQuota ns name
  | .reconcile name => (Flow.exec s smooth (s.reconcile ns name) world).2
  | .drift change => world.drift change

/-- What the reconcile of an object writes for a resource, `some none` for a deletion. -/
def touch (resource : Resource) : Option ObjectQuotaSpec → Option (Option Int64)
  | none => some none
  | some spec =>
    match spec.limit resource with
    | some limit => some (some limit)
    | none => if spec.fileDescriptors = none ∧ spec.processes = none then some none else none

/-- What the last reconcile that writes or deletes the limit of a resource makes of it. -/
def touched (resource : Resource) : Specs → List QuotaEvent → Option (Option Int64)
  | _, [] => none
  | specs, .reconcile name :: rest => (touched resource specs rest).or (touch resource (specs name))
  | specs, event :: rest => touched resource (event.specs specs) rest

end QuotaEvent

section run
variable {s : Syncer} {ns : String} (unleased : s.leaser = none)
include unleased

theorem reconcile_quotas (name : String) (world : Cluster) :
    (Flow.exec s smooth (s.reconcile ns name) world).2.quotas = world.quotas := by
  rw [s.reconcile_smooth]
  cases world.quota ns name with
  | none =>
    simp only [Syncer.removeNamespace_unleased unleased]
    rfl
  | some quota =>
    simp only [s.syncFromQuota_smooth, Syncer.removeNamespace_unleased unleased, Syncer.syncedHalf_unleased unleased]
    split
    · rfl
    · split <;> split <;> rfl

theorem reconcile_limit (name : String) (world : Cluster) (resource : Resource) :
    ((Flow.exec s smooth (s.reconcile ns name) world).2.nodes s.nodeID).limit resource ns =
      ((QuotaEvent.touch resource (world.specOf ns name)).map (·.map Int64.toUInt64)).getD
        ((world.nodes s.nodeID).limit resource ns) := by
  rw [s.reconcile_smooth]
  unfold Cluster.specOf
  cases found : world.quota ns name with
  | none =>
    simp only [Syncer.removeNamespace_unleased unleased, Cluster.editNode_self, Node.removed_limit]
    rfl
  | some quota =>
    obtain ⟨rfl, _⟩ := Cluster.quota_named found
    simp only [syncFromQuota_limit unleased, Option.map_some, QuotaEvent.touch]
    cases quota.spec.limit resource with
    | some limit => rfl
    | none =>
      simp only
      split <;> rfl

theorem after_specs (world : Cluster) (event : QuotaEvent) :
    (event.after s ns world).specOf ns = event.specs (world.specOf ns) := by
  funext other
  cases event with
  | put name spec =>
    simp only [QuotaEvent.after, QuotaEvent.specs, Cluster.specOf_putQuota, Function.update_apply]
  | delete name =>
    simp only [QuotaEvent.after, QuotaEvent.specs, Cluster.specOf_deleteQuota, Function.update_apply]
  | reconcile name =>
    simp only [QuotaEvent.after, QuotaEvent.specs, Cluster.specOf, Cluster.quota, reconcile_quotas unleased]
  | drift change => cases change <;> rfl

theorem after_limit (world : Cluster) (event : QuotaEvent) (resource : Resource) :
    ((event.after s ns world).nodes s.nodeID).limit resource ns =
      ((QuotaEvent.touched resource (world.specOf ns) [event]).map (·.map Int64.toUInt64)).getD
        ((world.nodes s.nodeID).limit resource ns) := by
  cases event with
  | put | delete => rfl
  | reconcile name => exact reconcile_limit unleased name world resource
  | drift change => exact world.drift_limit change s.nodeID resource ns

/-- The run lemma: the objects are those that were put and not deleted since, and a
limit is what was written last, or what was there before. -/
theorem run_quotas (world : Cluster) (events : List QuotaEvent) :
    (Trace.run (QuotaEvent.after s ns) world events).specOf ns = Trace.run QuotaEvent.specs (world.specOf ns) events ∧
    ∀ resource, ((Trace.run (QuotaEvent.after s ns) world events).nodes s.nodeID).limit resource ns =
      ((QuotaEvent.touched resource (world.specOf ns) events).map (·.map Int64.toUInt64)).getD
        ((world.nodes s.nodeID).limit resource ns) := by
  induction events generalizing world with
  | nil => exact ⟨rfl, fun _ => rfl⟩
  | cons event rest ih =>
    obtain ⟨specs, limits⟩ := ih (event.after s ns world)
    rw [after_specs unleased] at specs limits
    refine ⟨specs, fun resource => ?_⟩
    rw [Trace.run_cons, limits resource, after_limit unleased]
    cases event with
    | reconcile name =>
      simp only [QuotaEvent.touched, QuotaEvent.specs, Option.none_or]
      cases QuotaEvent.touched resource (world.specOf ns) rest <;> rfl
    | put | delete | drift => rfl

end run

/-- Some object asks for this limit. -/
def Demands (specs : Specs) (resource : Resource) (limit : Int64) : Prop :=
  ∃ name spec, specs name = some spec ∧ spec.limit resource = some limit

/-- What is enforced is what some object asks for, and nothing only if none asks. -/
def Enforces (specs : Specs) (resource : Resource) : Option UInt64 → Prop
  | none => ∀ limit, ¬ Demands specs resource limit
  | some stored => ∃ limit, Demands specs resource limit ∧ stored = limit.toUInt64

/-- The objects that a run leaves, starting without any. -/
def remaining (events : List QuotaEvent) : Specs := Trace.run QuotaEvent.specs (fun _ => none) events

/-- The last reconcile that writes or deletes the limit of the resource writes what
some remaining object asks for, or deletes it and none asks. -/
def EndsOn (resource : Resource) (events : List QuotaEvent) : Prop :=
  match (QuotaEvent.touched resource (fun _ => none) events).join with
  | none => ∀ limit, ¬ Demands (remaining events) resource limit
  | some limit => Demands (remaining events) resource limit

/-- Every object is reconciled after its last change. -/
def Settled (events : List QuotaEvent) : Prop :=
  ∀ first event last name, events = first ++ event :: last → (event = .delete name ∨ ∃ spec, event = .put name spec) →
    .reconcile name ∈ last

/-- The objects agree on the limit of the resource. -/
def Agreed (specs : Specs) (resource : Resource) : Prop :=
  ∀ one two, Demands specs resource one → Demands specs resource two → one = two

/-- The namespace has no quota yet, and its node no limit for it. -/
structure Untouched (s : Syncer) (ns : String) (world : Cluster) : Prop where
  specs : world.specOf ns = fun _ => none
  limits : ∀ resource, (world.nodes s.nodeID).limit resource ns = none

section final
variable {s : Syncer} {ns : String} (unleased : s.leaser = none) {world : Cluster} (untouched : Untouched s ns world)
include unleased untouched

theorem final_limit (events : List QuotaEvent) (resource : Resource) :
    ((Trace.run (QuotaEvent.after s ns) world events).nodes s.nodeID).limit resource ns =
      (QuotaEvent.touched resource (fun _ => none) events).join.map Int64.toUInt64 := by
  rw [(run_quotas unleased world events).2, untouched.specs, untouched.limits]
  cases QuotaEvent.touched resource (fun _ => none) events with
  | none => rfl
  | some written => rfl

theorem enforces_iff (events : List QuotaEvent) (resource : Resource) :
    Enforces ((Trace.run (QuotaEvent.after s ns) world events).specOf ns) resource
      (((Trace.run (QuotaEvent.after s ns) world events).nodes s.nodeID).limit resource ns) ↔ EndsOn resource events := by
  rw [final_limit unleased untouched, (run_quotas unleased world events).1, untouched.specs]
  unfold EndsOn
  cases (QuotaEvent.touched resource (fun _ => none) events).join with
  | none => exact .rfl
  | some limit =>
    constructor
    · intro enforces
      obtain ⟨other, demands, same⟩ := enforces
      have equal : limit = other := by simpa using congrArg UInt64.toInt64 same
      rw [equal]
      exact demands
    · intro demands
      exact ⟨limit, demands, rfl⟩

theorem agreed_limit {one two : List QuotaEvent} {resource : Resource} (same : remaining one = remaining two)
    (agreed : Agreed (remaining one) resource) (first : EndsOn resource one) (second : EndsOn resource two) :
    ((Trace.run (QuotaEvent.after s ns) world one).nodes s.nodeID).limit resource ns =
      ((Trace.run (QuotaEvent.after s ns) world two).nodes s.nodeID).limit resource ns := by
  rw [final_limit unleased untouched, final_limit unleased untouched]
  unfold EndsOn at first second
  rw [← same] at second
  cases left : (QuotaEvent.touched resource (fun _ => none) one).join with
  | none =>
    rw [left] at first
    cases right : (QuotaEvent.touched resource (fun _ => none) two).join with
    | none => rfl
    | some limit =>
      rw [right] at second
      exact absurd second (first limit)
  | some limit =>
    rw [left] at first
    cases right : (QuotaEvent.touched resource (fun _ => none) two).join with
    | none =>
      rw [right] at second
      exact absurd first (second limit)
    | some other =>
      rw [right] at second
      rw [agreed limit other first second]

end final

theorem touched_append (resource : Resource) (specs : Specs) (first last : List QuotaEvent) :
    QuotaEvent.touched resource specs (first ++ last) =
      (QuotaEvent.touched resource (Trace.run QuotaEvent.specs specs first) last).or
        (QuotaEvent.touched resource specs first) := by
  induction first generalizing specs with
  | nil => exact (Option.or_none ..).symm
  | cons event rest ih =>
    cases event with
    | reconcile name => simp only [List.cons_append, QuotaEvent.touched, ih, Option.or_assoc, Trace.run_cons, QuotaEvent.specs]
    | put | delete | drift => simp only [List.cons_append, QuotaEvent.touched, ih, Trace.run_cons]

/-- The names of the objects that a run changes. -/
def changed (events : List QuotaEvent) : List String :=
  events.filterMap fun
    | .put name _ => some name
    | .delete name => some name
    | .reconcile _ | .drift _ => none

/-- A run that reconciles everything after its changes, one object last. -/
def endingWith (events : List QuotaEvent) (name : String) : List QuotaEvent :=
  events ++ ((changed events).map .reconcile ++ [.reconcile name])

section endingWith
variable (events : List QuotaEvent) (name : String)

private theorem reconciles_specs (names : List String) (specs : Specs) :
    Trace.run QuotaEvent.specs specs (names.map .reconcile) = specs := by
  induction names with
  | nil => rfl
  | cons name rest ih => exact ih

theorem remaining_endingWith : remaining (endingWith events name) = remaining events := by
  simp only [remaining, endingWith, Trace.run_append, reconciles_specs]
  rfl

theorem settled_endingWith : Settled (endingWith events name) := by
  intro first event last changing split changes
  have notAfter : ∀ other ∈ (changed events).map QuotaEvent.reconcile ++ [.reconcile name], event ≠ other := by
    intro other member same
    subst same
    simp only [List.mem_append, List.mem_map, List.mem_singleton] at member
    rcases changes with rfl | ⟨spec, rfl⟩ <;> simp at member
  rcases List.append_eq_append_iff.mp split with ⟨more, rfl, later⟩ | ⟨more, early, later⟩
  · have inside : event ∈ (changed events).map QuotaEvent.reconcile ++ [.reconcile name] := by
      rw [later]
      exact List.mem_append_right _ List.mem_cons_self
    exact absurd rfl (notAfter event inside)
  · cases more with
    | nil =>
      have inside : event ∈ (changed events).map QuotaEvent.reconcile ++ [.reconcile name] := by
        rw [List.nil_append] at later
        rw [← later]
        exact List.mem_cons_self
      exact absurd rfl (notAfter event inside)
    | cons same rest =>
      obtain ⟨rfl, rfl⟩ := List.cons.inj later
      apply List.mem_append_right
      apply List.mem_append_left
      apply List.mem_map_of_mem
      apply List.mem_filterMap.mpr
      refine ⟨event, ?_, ?_⟩
      · rw [early]
        exact List.mem_append_right _ List.mem_cons_self
      · rcases changes with rfl | ⟨spec, rfl⟩ <;> rfl

theorem touched_endingWith {resource : Resource} {spec : ObjectQuotaSpec} {limit : Int64}
    (found : remaining events name = some spec) (asks : spec.limit resource = some limit) :
    QuotaEvent.touched resource (fun _ => none) (endingWith events name) = some (some limit) := by
  have last : Trace.run QuotaEvent.specs (fun _ => none) (events ++ (changed events).map QuotaEvent.reconcile) name =
      some spec := by
    rw [Trace.run_append, reconciles_specs]
    exact found
  rw [endingWith, ← List.append_assoc, touched_append]
  simp only [QuotaEvent.touched, last, QuotaEvent.touch, asks, Option.none_or, Option.some_or]

end endingWith

section result
variable {s : Syncer} {ns : String} (unleased : s.leaser = none) {world : Cluster} (untouched : Untouched s ns world)
include unleased untouched

/-- For each resource: a run enforces what its remaining objects ask for exactly when it
ends on it, and the limit of such runs is a function of the objects exactly when these agree. -/
theorem several_quotas_iff (resource : Resource) :
    (∀ events, Enforces ((Trace.run (QuotaEvent.after s ns) world events).specOf ns) resource
      (((Trace.run (QuotaEvent.after s ns) world events).nodes s.nodeID).limit resource ns) ↔ EndsOn resource events) ∧
    ∀ events, Agreed (remaining events) resource ↔
      ∀ one two, Settled one → Settled two → remaining one = remaining events → remaining two = remaining events →
        EndsOn resource one → EndsOn resource two →
        ((Trace.run (QuotaEvent.after s ns) world one).nodes s.nodeID).limit resource ns =
          ((Trace.run (QuotaEvent.after s ns) world two).nodes s.nodeID).limit resource ns := by
  refine ⟨fun events => enforces_iff unleased untouched events resource, fun events => ⟨?_, ?_⟩⟩
  · intro agreed one two _ _ first second endsOne endsTwo
    exact agreed_limit unleased untouched (first.trans second.symm) (first ▸ agreed) endsOne endsTwo
  · intro confluent one two asksOne asksTwo
    have settle (limit : Int64) (asks : Demands (remaining events) resource limit) :
        ∃ run, Settled run ∧ remaining run = remaining events ∧ EndsOn resource run ∧
          ((Trace.run (QuotaEvent.after s ns) world run).nodes s.nodeID).limit resource ns = some limit.toUInt64 := by
      obtain ⟨name, spec, found, wants⟩ := asks
      have last := touched_endingWith events name found wants
      refine ⟨endingWith events name, settled_endingWith events name, remaining_endingWith events name, ?_, ?_⟩
      · simp only [EndsOn, last, Option.join_some, remaining_endingWith]
        exact ⟨name, spec, found, wants⟩
      · rw [final_limit unleased untouched, last]
        rfl
    obtain ⟨first, settled, same, ends, limit⟩ := settle one asksOne
    obtain ⟨second, settled', same', ends', limit'⟩ := settle two asksTwo
    have equal := confluent first second settled settled' same same' ends ends'
    rw [limit, limit', Option.some.injEq] at equal
    simpa using congrArg UInt64.toInt64 equal

end result

/-- Of two quotas one is deleted, and its reconciles come last: the other one's limit is gone. -/
theorem remaining_quota_disarmed :
    let s : Syncer := ⟨"node", none⟩
    let events := endingWith [.put "a" ⟨some 5, none, none⟩, .reconcile "a", .put "b" ⟨some 7, none, none⟩,
      .reconcile "b", .delete "b"] "b"
    let world := Trace.run (QuotaEvent.after s "team") (.empty []) events
    s.leaser = none ∧ Untouched s "team" (.empty []) ∧ Settled events ∧
      world.specOf "team" "a" = some ⟨some 5, none, none⟩ ∧ (world.nodes "node").limit .fd "team" = none :=
  ⟨rfl, ⟨rfl, fun resource => by cases resource <;> rfl⟩, settled_endingWith _ _, by decide +kernel, by decide +kernel⟩

/-- The same two quotas, when each is reconciled as it is created. -/
theorem two_quotas_last_wins :
    let s : Syncer := ⟨"node", none⟩
    let events : List QuotaEvent := [.put "a" ⟨some 5, none, none⟩, .reconcile "a", .put "b" ⟨some 7, none, none⟩, .reconcile "b"]
    let world := Trace.run (QuotaEvent.after s "team") (.empty []) events
    (world.nodes "node").limit .fd "team" = some 7 ∧
      (Enforces (world.specOf "team") .fd ((world.nodes "node").limit .fd "team") ↔ EndsOn .fd events) :=
  ⟨by decide +kernel, (several_quotas_iff rfl ⟨rfl, fun resource => by cases resource <;> rfl⟩ .fd).1 _⟩

end QuotaManager
