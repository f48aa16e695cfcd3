import QuotaManager.Proofs.Bookkeeping
import QuotaManager.Proofs.SpecConvergence

/-! Syncs of one namespace, whatever becomes of them, and a removal after them. Each
sync that completes forgets what the syncs before it have mapped, and one that fails
tracks nothing; the removal takes back only what is tracked then. -/

namespace QuotaManager
open Enforcer

/-- The call of a sync that fails; of the mappings the one with this index. -/
inductive Failure where
  | updateLimit
  | resetCounter
  | listPods
  | updateMapping (index : Nat)

/-- A sync with the pods and the resolver that it meets, and how its requests go. `api`
is for those of the lease manager and for the lookup of the counter. -/
structure SyncCall where
  resource : Resource
  limit : Int64
  batchSize : Option Int64
  pods : List Pod
  resolve : String → Option (List CgroupInfo)
  failure : Option Failure
  api : Request → Option Nat

namespace SyncCall
variable (call : SyncCall)

def outcome : Request → Option Nat
  | .updateNsLimit _ _ _ => match call.failure with | some .updateLimit => some 0 | _ => none
  | .updateNsCounter _ _ _ => match call.failure with | some .resetCounter => some 0 | _ => none
  | .listPods _ => match call.failure with | some .listPods => some 0 | _ => none
  | .mapPods _ _ _ => match call.failure with | some (.updateMapping index) => some index | _ => none
  | request => call.api request

def prepare (s : Syncer) (ns : String) (world : Cluster) : Cluster :=
  { world with pods := Function.update world.pods ns call.pods }.editNode s.nodeID
    { world.nodes s.nodeID with resolve := call.resolve }

def after (s : Syncer) (ns : String) (world : Cluster) : Cluster :=
  (Action.exec s call.outcome (s.sync call.resource ns call.limit call.batchSize) (call.prepare s ns world)).2

/-- The cgroups of the pods that the call meets. -/
def resolved : List CgroupInfo := { Node.empty with resolve := call.resolve }.resolved call.pods

/-- Those that it maps. -/
def mapped : Finset UInt64 :=
  match call.failure with
  | none => identifiers call.resolved
  | some (.updateMapping index) => identifiers (call.resolved.take index)
  | some _ => ∅

/-- Its locked section comes to its end. -/
def completed : Bool :=
  match call.failure with
  | none => true
  | some (.updateMapping index) => call.resolved.length ≤ index
  | some _ => false

end SyncCall

/-- What the last call that has completed resolved. -/
def tracked (calls : List SyncCall) : Option (Finset UInt64) :=
  calls.foldl (fun known call => if call.completed then some (identifiers call.resolved) else known) none

/-- The cgroups that some call for the resource has mapped. -/
def Entered (calls : List SyncCall) (resource : Resource) (cgroupID : UInt64) : Prop :=
  ∃ call ∈ calls, call.resource = resource ∧ cgroupID ∈ call.mapped

section call
variable (s : Syncer) (ns : String)

theorem sync_book {outcome : Request → Option Nat} {resource : Resource} {limits counters lists maps : Option Nat}
    (limited : ∀ limit, outcome (.updateNsLimit resource (namespaceKey ns) limit) = limits)
    (counted : ∀ lease, outcome (.updateNsCounter resource (namespaceKey ns) lease) = counters)
    (listed : outcome (.listPods ns) = lists) (mapped : ∀ pods, outcome (.mapPods resource ns pods) = maps)
    (limit : Int64) (batchSize : Option Int64) (world : Cluster) :
    let node := world.nodes s.nodeID
    let cInfos := node.resolved (world.pods ns)
    (((Action.exec s outcome (s.sync resource ns limit batchSize) world).2).nodes s.nodeID).book =
      if limits.isSome ∨ counters.isSome ∨ lists.isSome then node.book
      else node.book.sync resource ns (Node.taken cInfos maps) (Node.completes cInfos maps) := by
  have off : OffNode world (Action.exec s outcome (s.effectiveLimit resource ns limit batchSize) world).2 :=
    offNode_exec (s.effectiveLimit_asks resource ns limit batchSize) world
  simp only [Syncer.sync, Action.exec_bind, ← off.nodes, ← off.pods]
  generalize Action.exec s outcome (s.effectiveLimit resource ns limit batchSize) world = began
  obtain ⟨effective, began⟩ := began
  rw [Action.exec_perform]
  simp only [Cluster.serve, limited]
  cases limits with
  | some fault => simp only [Option.isSome_some, ↓reduceIte, true_or, Action.exec_return]
  | none =>
    have written (node : Node) (limit : Int64) :
        (node.edit resource fun maps => maps.updateNsLimit (namespaceKey ns) limit).book = node.book :=
      node.edit_book resource fun _ => rfl
    simp only [Option.isSome_none, Bool.false_eq_true, ↓reduceIte, false_or, Action.exec_bind, Syncer.resetCounter]
    rw [Action.exec_perform, Action.exec_perform]
    simp only [Cluster.serve, counted]
    cases counters with
    | some fault =>
      simp only [Option.isSome_some, ↓reduceIte, true_or, Action.exec_return, Cluster.editNode_self, written]
    | none =>
      have counts (node : Node) (lease : CpuLease) :
          (node.edit resource fun maps => maps.updateNsCounter (namespaceKey ns) lease).book = node.book :=
        node.edit_book resource fun _ => rfl
      simp only [Option.isSome_none, Bool.false_eq_true, ↓reduceIte, false_or, Action.exec_bind]
      rw [Action.exec_perform]
      simp only [Cluster.serve, listed]
      cases lists with
      | some fault =>
        simp only [Option.isSome_some, ↓reduceIte, Action.exec_return, Cluster.editNode_self, written, counts]
      | none =>
        simp only [Option.isSome_none, Bool.false_eq_true, ↓reduceIte, Action.exec_bind]
        rw [Action.exec_perform]
        simp only [Cluster.serve, mapped, Cluster.editNode_self, Cluster.editNode_editNode]
        split <;>
        · rw [Action.exec_return, Cluster.editNode_self, Node.mapPods_book, counts, written]
          rfl

theorem SyncCall.after_book (call : SyncCall) (world : Cluster) :
    let before := (world.nodes s.nodeID).book
    let after := ((call.after s ns world).nodes s.nodeID).book
    after = before ∧ call.mapped = ∅ ∧ call.completed = false ∨
      ∃ cInfos, after = before.sync call.resource ns cInfos call.completed ∧ identifiers cInfos = call.mapped ∧
        (call.completed = true → identifiers cInfos = identifiers call.resolved) := by
  have met : ((call.prepare s ns world).nodes s.nodeID).book = (world.nodes s.nodeID).book := by
    rw [prepare, Cluster.editNode_self]
    rfl
  have found : ((call.prepare s ns world).nodes s.nodeID).resolved ((call.prepare s ns world).pods ns) = call.resolved := by
    rw [prepare, Cluster.editNode_self]
    have pods : (Cluster.editNode { world with pods := Function.update world.pods ns call.pods } s.nodeID
        { world.nodes s.nodeID with resolve := call.resolve }).pods ns = call.pods := Function.update_self ..
    rw [pods]
    rfl
  intro before after
  have locked := @sync_book s ns call.outcome call.resource _ _ _ _ (fun _ => rfl) (fun _ => rfl) rfl (fun _ => rfl)
    call.limit call.batchSize (call.prepare s ns world)
  simp only [met, found] at locked
  unfold mapped completed
  cases failed : call.failure with
  | none =>
    simp only [outcome, failed, Option.isSome_none, Bool.false_eq_true, or_self, ↓reduceIte] at locked
    exact .inr ⟨call.resolved, locked, rfl, fun _ => rfl⟩
  | some failure =>
    cases failure with
    | updateLimit | resetCounter | listPods =>
      simp only [outcome, failed, Option.isSome_some, Option.isSome_none, Bool.false_eq_true, true_or, or_true, ↓reduceIte] at locked
      exact .inl ⟨locked, rfl, rfl⟩
    | updateMapping index =>
      simp only [outcome, failed, Option.isSome_none, Bool.false_eq_true, or_self, ↓reduceIte] at locked
      refine .inr ⟨call.resolved.take index, locked, rfl, fun complete => ?_⟩
      rw [List.take_of_length_le (by simpa using complete)]

end call

/-- What a history of calls makes of a book. -/
structure Traces (ns : String) (calls : List SyncCall) (before after : Book) : Prop where
  entered : ∀ resource cgroupID, Entered calls resource cgroupID → after.cgroup resource cgroupID = some (namespaceKey ns)
  others : ∀ resource cgroupID, ¬ Entered calls resource cgroupID →
    after.cgroup resource cgroupID = before.cgroup resource cgroupID
  nsCgroups : after.nsCgroups = match tracked calls with
    | none => before.nsCgroups
    | some known => Function.update before.nsCgroups ns (some known)
  cgroupPaths : ∀ cgroupID, (∀ resource, ¬ Entered calls resource cgroupID) →
    after.cgroupPaths cgroupID = before.cgroupPaths cgroupID
  nsNameByKey : ∀ nsKey, nsKey ≠ namespaceKey ns → after.nsNameByKey nsKey = before.nsNameByKey nsKey

def afterCalls (s : Syncer) (ns : String) (calls : List SyncCall) (world : Cluster) : Cluster :=
  calls.foldl (fun world call => call.after s ns world) world

section run
variable {s : Syncer} {ns : String}

theorem entered_append {calls : List SyncCall} {call : SyncCall} {resource : Resource} {cgroupID : UInt64} :
    Entered (calls ++ [call]) resource cgroupID ↔
      Entered calls resource cgroupID ∨ call.resource = resource ∧ cgroupID ∈ call.mapped := by
  unfold Entered
  simp only [List.mem_append, List.mem_singleton]
  constructor
  · rintro ⟨other, earlier | rfl, here⟩
    · exact .inl ⟨other, earlier, here⟩
    · exact .inr here
  · rintro (⟨other, earlier, here⟩ | here)
    · exact ⟨other, .inl earlier, here⟩
    · exact ⟨call, .inr rfl, here⟩

theorem tracked_append (calls : List SyncCall) (call : SyncCall) :
    tracked (calls ++ [call]) = if call.completed then some (identifiers call.resolved) else tracked calls := by
  simp only [tracked, List.foldl_append, List.foldl_cons, List.foldl_nil]

theorem Traces.step {calls : List SyncCall} {before middle after : Book} (traces : Traces ns calls before middle)
    {call : SyncCall} (does : after = middle ∧ call.mapped = ∅ ∧ call.completed = false ∨
      ∃ cInfos, after = middle.sync call.resource ns cInfos call.completed ∧ identifiers cInfos = call.mapped ∧
        (call.completed = true → identifiers cInfos = identifiers call.resolved)) :
    Traces ns (calls ++ [call]) before after := by
  rcases does with ⟨rfl, nothing, stopped⟩ | ⟨cInfos, rfl, mapped, whole⟩
  · have same (resource : Resource) (cgroupID : UInt64) :
        Entered (calls ++ [call]) resource cgroupID ↔ Entered calls resource cgroupID := by
      rw [entered_append, nothing]
      simp
    refine ⟨?_, ?_, ?_, ?_, traces.nsNameByKey⟩
    · exact fun resource cgroupID entered => traces.entered resource cgroupID ((same _ _).mp entered)
    · exact fun resource cgroupID away => traces.others resource cgroupID fun entered => away ((same _ _).mpr entered)
    · rw [tracked_append, stopped]
      exact traces.nsCgroups
    · exact fun cgroupID away => traces.cgroupPaths cgroupID fun resource entered => away resource ((same _ _).mpr entered)
  · refine ⟨?_, ?_, ?_, ?_, ?_⟩
    · intro resource cgroupID entered
      rw [Book.sync_cgroup, mapped]
      split
      · rfl
      next away =>
        rcases entered_append.mp entered with earlier | now
        · exact traces.entered resource cgroupID earlier
        · exact absurd ⟨now.1.symm, now.2⟩ away
    · intro resource cgroupID away
      rw [Book.sync_cgroup, mapped, if_neg]
      · exact traces.others resource cgroupID fun earlier => away (entered_append.mpr (.inl earlier))
      · exact fun now => away (entered_append.mpr (.inr ⟨now.1.symm, now.2⟩))
    · rw [Book.sync_nsCgroups, tracked_append]
      cases complete : call.completed with
      | false =>
        simp only [Bool.false_eq_true, ↓reduceIte]
        exact traces.nsCgroups
      | true =>
        simp only [↓reduceIte]
        rw [whole complete, traces.nsCgroups]
        cases tracked calls with
        | none => rfl
        | some known => exact Function.update_idem ..
    · intro cgroupID away
      rw [Book.sync_paths]
      · exact traces.cgroupPaths cgroupID fun resource earlier => away resource (entered_append.mpr (.inl earlier))
      · rw [mapped]
        exact fun now => away call.resource (entered_append.mpr (.inr ⟨rfl, now⟩))
    · intro nsKey different
      rw [Book.sync_named, BpfMap.update_of_ne _ _ _ _ different]
      exact traces.nsNameByKey nsKey different

theorem afterCalls_traces (calls : List SyncCall) (world : Cluster) :
    Traces ns calls (world.nodes s.nodeID).book ((afterCalls s ns calls world).nodes s.nodeID).book := by
  induction calls using List.reverseRecOn with
  | nil => exact ⟨fun _ _ ⟨_, impossible, _⟩ => absurd impossible List.not_mem_nil, fun _ _ _ => rfl, rfl, fun _ _ => rfl,
      fun _ _ => rfl⟩
  | append_singleton calls call ih =>
    simp only [afterCalls, List.foldl_append, List.foldl_cons, List.foldl_nil]
    exact ih.step (call.after_book s ns _)

end run
/-- Nothing of the namespace is left, and the books are as they were before the calls. -/
structure CleanedUp (ns : String) (before after : Node) : Prop where
  mappings : ∀ resource cgroupID, (after.bpf.maps resource).cgroup cgroupID ≠ some (namespaceKey ns)
  limits : ∀ resource, (after.bpf.maps resource).nsLimit (namespaceKey ns) = none
  counters : ∀ resource, (after.bpf.maps resource).nsCounter (namespaceKey ns) = none
  nsCgroups : after.nsCgroups = before.nsCgroups
  nsNameByKey : after.nsNameByKey = before.nsNameByKey
  cgroupPaths : after.cgroupPaths = before.cgroupPaths

/-- The node does not know the namespace yet, nor the cgroups of the calls from another one. -/
structure Node.NewTo (node : Node) (ns : String) (calls : List SyncCall) : Prop where
  mappings : ∀ resource cgroupID, (node.bpf.maps resource).cgroup cgroupID ≠ some (namespaceKey ns)
  nsCgroups : node.nsCgroups ns = none
  nsNameByKey : node.nsNameByKey (namespaceKey ns) = none
  cgroupPaths : ∀ call ∈ calls, ∀ cgroupID ∈ call.mapped, node.cgroupPaths cgroupID = none

theorem Node.unlimited_book (node : Node) (ns : String) : (node.unlimited ns).book = node.book := by
  have forgotten (node : Node) (resource : Resource) : (node.edit resource fun maps =>
      (maps.deleteNsLimit (namespaceKey ns)).deleteNsCounter (namespaceKey ns)).book = node.book :=
    node.edit_book resource fun _ => rfl
  rw [unlimited, forgotten, forgotten]

theorem Node.unlimited_counter (node : Node) (ns : String) (resource : Resource) :
    ((node.unlimited ns).bpf.maps resource).nsCounter (namespaceKey ns) = none := by
  cases resource <;> exact BpfMap.delete_self ..

section removal
variable {s : Syncer} {ns : String} {calls : List SyncCall}

/-- Everything that the calls have mapped is tracked at the end. -/
def AllTracked (calls : List SyncCall) : Prop := ∀ call ∈ calls, call.mapped ⊆ (tracked calls).getD ∅

theorem Traces.known {before after : Book} (traces : Traces ns calls before after) (fresh : before.nsCgroups ns = none) :
    (after.nsCgroups ns).getD ∅ = (tracked calls).getD ∅ := by
  rw [traces.nsCgroups]
  cases tracked calls with
  | none => exact congrArg (Option.getD · ∅) fresh
  | some known => exact congrArg (Option.getD · ∅) (Function.update_self ..)

theorem SyncCall.mapped_completed {call : SyncCall} (complete : call.completed = true) :
    call.mapped = identifiers call.resolved := by
  unfold completed at complete
  unfold mapped
  cases failed : call.failure with
  | none => rfl
  | some failure =>
    rw [failed] at complete
    cases failure with
    | updateLimit | resetCounter | listPods => cases complete
    | updateMapping index => exact congrArg identifiers (List.take_of_length_le (by simpa using complete))

theorem tracked_mapped (calls : List SyncCall) {cgroupID : UInt64} (inside : cgroupID ∈ (tracked calls).getD ∅) :
    ∃ call ∈ calls, cgroupID ∈ call.mapped := by
  induction calls using List.reverseRecOn with
  | nil => exact absurd inside (Finset.notMem_empty _)
  | append_singleton calls call ih =>
    rw [tracked_append] at inside
    split at inside
    next complete =>
      refine ⟨call, List.mem_append_right _ (List.mem_singleton_self _), ?_⟩
      rw [SyncCall.mapped_completed complete]
      exact inside
    · obtain ⟨other, member, mapped⟩ := ih inside
      exact ⟨other, List.mem_append_left _ member, mapped⟩

/-- The removal takes the traces of the calls back exactly when all of it is tracked. -/
theorem Traces.removed_iff {before after : Book} (traces : Traces ns calls before after)
    (fresh : before.nsCgroups ns = none) (unnamed : before.nsNameByKey (namespaceKey ns) = none)
    (unmapped : ∀ resource cgroupID, before.cgroup resource cgroupID ≠ some (namespaceKey ns))
    (unshared : ∀ call ∈ calls, ∀ cgroupID ∈ call.mapped, before.cgroupPaths cgroupID = none) :
    ((∀ resource cgroupID, (after.clear ns).cgroup resource cgroupID ≠ some (namespaceKey ns)) ∧
      (after.clear ns).nsCgroups = before.nsCgroups ∧ (after.clear ns).nsNameByKey = before.nsNameByKey ∧
      (after.clear ns).cgroupPaths = before.cgroupPaths) ↔ AllTracked calls := by
  have known := traces.known fresh
  constructor
  · intro ⟨mappings, _⟩ call member cgroupID mapped
    by_contra untracked
    apply mappings call.resource cgroupID
    unfold Book.clear Book.remove
    simp only [known, untracked, false_and, ↓reduceIte]
    exact traces.entered _ _ ⟨call, member, rfl, mapped⟩
  · intro all
    refine ⟨?_, ?_, ?_, ?_⟩
    · intro resource cgroupID
      unfold Book.clear Book.remove
      simp only [known, Bool.false_eq_true, not_false_eq_true, and_true]
      split
      · exact nofun
      next untracked =>
        rw [traces.others resource cgroupID]
        · exact unmapped resource cgroupID
        · exact fun ⟨call, member, _, mapped⟩ => untracked (all call member mapped)
    · change Function.update after.nsCgroups ns none = before.nsCgroups
      rw [traces.nsCgroups, ← fresh]
      cases tracked calls with
      | none => exact Function.update_eq_self ..
      | some known => rw [Function.update_idem, Function.update_eq_self]
    · funext nsKey
      by_cases here : nsKey = namespaceKey ns
      · rw [here, unnamed]
        exact BpfMap.delete_self ..
      · exact (BpfMap.delete_of_ne _ _ _ here).trans (traces.nsNameByKey nsKey here)
    · funext cgroupID
      unfold Book.clear Book.remove
      simp only [known]
      split
      next inside =>
        obtain ⟨call, member, mapped⟩ := tracked_mapped calls inside
        exact (unshared call member cgroupID mapped).symm
      next untracked =>
        apply traces.cgroupPaths
        exact fun resource ⟨call, member, _, mapped⟩ => untracked (all call member mapped)

end removal

/-- A removal cleans up after the syncs exactly when everything that they have mapped is
among what the last one that has completed resolved. -/
theorem cleaned_up_iff_all_tracked {s : Syncer} {ns : String} {calls : List SyncCall} {world : Cluster}
    (new : (world.nodes s.nodeID).NewTo ns calls) {outcome : ControllerRequest → Option Nat}
    (limits : ∀ resource nsKey, outcome (.deleteNsLimit resource nsKey) = none)
    (counters : ∀ resource nsKey, outcome (.deleteNsCounter resource nsKey) = none)
    (mappings : ∀ resource cgroupID, (((afterCalls s ns calls world).nodes s.nodeID).bpf.maps resource).cgroup cgroupID ≠ none →
      fails (outcome (.removeCgroups ns)) (mappingDeletion resource cgroupID) = false) :
    CleanedUp ns (world.nodes s.nodeID)
        ((Flow.exec s outcome (s.removeNamespace ns) (afterCalls s ns calls world)).2.nodes s.nodeID) ↔
      AllTracked calls := by
  have ended := s.removeNamespace_exec limits counters ns (afterCalls s ns calls world)
  have off := s.releaseLeases_offNode ns outcome (afterCalls s ns calls world)
  have after : (Flow.exec s outcome (s.removeNamespace ns) (afterCalls s ns calls world)).2.nodes s.nodeID =
      (((afterCalls s ns calls world).nodes s.nodeID).unlimited ns).removeCgroups ns (fails (outcome (.removeCgroups ns))) := by
    rw [ended, Cluster.editNode_self, off.nodes]
  rw [after]
  have traces := @afterCalls_traces s ns calls world
  generalize (afterCalls s ns calls world).nodes s.nodeID = node at traces mappings
  have book : ((node.unlimited ns).removeCgroups ns (fails (outcome (.removeCgroups ns)))).book = node.book.clear ns := by
    rw [Node.removeCgroups_book, node.unlimited_book, Book.remove_eq_clear ns mappings]
  have exact := traces.removed_iff new.nsCgroups new.nsNameByKey new.mappings new.cgroupPaths
  rw [← exact, ← book]
  constructor
  · exact fun clean => ⟨clean.mappings, clean.nsCgroups, clean.nsNameByKey, clean.cgroupPaths⟩
  · intro ⟨mappings, nsCgroups, nsNameByKey, cgroupPaths⟩
    refine ⟨mappings, fun resource => ?_, fun resource => ?_, nsCgroups, nsNameByKey, cgroupPaths⟩
    · exact (Node.removeCgroups_limit _ ns resource _).trans (node.unlimited_limit ns resource)
    · exact (congrFun (Node.removeCgroups_limits _ resource ns _).2 _).trans (node.unlimited_counter ns resource)

section runs

/-- A sync that meets one pod with one cgroup. -/
def podCall (resource : Resource) (cgroupID : UInt64) (failure : Option Failure) : SyncCall where
  resource := resource
  limit := 10
  batchSize := none
  pods := [⟨"pod", .running⟩]
  resolve _ := some [⟨cgroupID, "path"⟩]
  failure := failure
  api _ := none

def loneSyncer : Syncer := ⟨"node", none⟩

theorem resynced_pod_cleaned_up :
    CleanedUp "team" .empty ((Flow.exec loneSyncer smooth (loneSyncer.removeNamespace "team")
      (afterCalls loneSyncer "team" [podCall .fd 7 none, podCall .proc 7 none] (.empty []))).2.nodes "node") := by
  let calls := [podCall .fd 7 none, podCall .proc 7 none]
  have new : ((Cluster.empty []).nodes "node").NewTo "team" calls :=
    ⟨fun resource _ => by cases resource <;> exact nofun, rfl, rfl, fun _ _ _ _ => rfl⟩
  have all : AllTracked calls := by
    unfold AllTracked
    decide +kernel
  exact (@cleaned_up_iff_all_tracked loneSyncer "team" calls (.empty []) new smooth (fun _ _ => rfl) (fun _ _ => rfl)
    fun _ _ _ => rfl).mpr all

/-- A pod that is gone by the second sync keeps its mapping. -/
theorem replaced_pod_stays_mapped :
    let after := (Flow.exec loneSyncer smooth (loneSyncer.removeNamespace "team")
      (afterCalls loneSyncer "team" [podCall .fd 7 none, podCall .fd 8 none] (.empty []))).2.nodes "node"
    after.bpf.fd.cgroup 7 = some (namespaceKey "team") ∧ after.cgroupPaths 7 = some "path" ∧
      ¬ CleanedUp "team" .empty after := by
  intro after
  have mapped : after.bpf.fd.cgroup 7 = some (namespaceKey "team") := by decide +kernel
  exact ⟨mapped, by decide +kernel, fun clean => clean.mappings .fd 7 mapped⟩

end runs
end QuotaManager
