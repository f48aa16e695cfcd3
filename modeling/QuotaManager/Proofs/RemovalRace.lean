import QuotaManager.Logic.Interleave
import QuotaManager.Proofs.Bookkeeping

/-! A sync and a removal of one namespace from two workers. The lock covers the books
only: the limit, the lease and the book each end up as the later of the two leaves
them, and nothing makes the same call the later one in all three places. -/

namespace QuotaManager
open Enforcer Program

/-- What is compared of a node: limits, which leases are present, and the book. -/
structure Observed where
  limit : Resource → BpfMap UInt64
  leased : Resource → UInt64 → Bool
  book : Book

def Node.observed (node : Node) : Observed where
  limit resource := (node.bpf.maps resource).nsLimit
  leased resource nsKey := ((node.bpf.maps resource).nsCounter nsKey).isSome
  book := node.book

namespace Observed

def setLimit (resource : Resource) (nsKey : UInt64) (limit : Option UInt64) (seen : Observed) : Observed :=
  { seen with limit := Function.update seen.limit resource (Function.update (seen.limit resource) nsKey limit) }

def setLeased (resource : Resource) (nsKey : UInt64) (leased : Bool) (seen : Observed) : Observed :=
  { seen with leased := Function.update seen.leased resource (Function.update (seen.leased resource) nsKey leased) }

def setBook (change : Book → Book) (seen : Observed) : Observed := { seen with book := change seen.book }

theorem eq_of_parts {one two : Observed} (limit : ∀ resource, one.limit resource = two.limit resource)
    (leased : ∀ resource, one.leased resource = two.leased resource) (book : one.book = two.book) : one = two := by
  cases one
  cases two
  simp only [mk.injEq]
  exact ⟨funext limit, funext leased, book⟩

end Observed

section edits
variable {node : Node} {resource : Resource} {nsKey : UInt64} {change : ResourceMaps → ResourceMaps}

theorem Node.edit_limit {limit : Option UInt64} (written : ∀ maps, (change maps).nsLimit = Function.update maps.nsLimit nsKey limit)
    (counters : ∀ maps, (change maps).nsCounter = maps.nsCounter) (cgroups : ∀ maps, (change maps).cgroup = maps.cgroup) :
    (node.edit resource change).observed = node.observed.setLimit resource nsKey limit := by
  apply Observed.eq_of_parts
  · intro other
    unfold observed Observed.setLimit
    by_cases here : other = resource
    · subst here
      simp only [Function.update_self, edit_maps, written]
    · simp only [Function.update_of_ne here, edit_other _ _ here]
  · intro other
    unfold observed Observed.setLimit
    by_cases here : other = resource
    · subst here
      simp only [edit_maps, counters]
    · simp only [edit_other _ _ here]
  · exact node.edit_book resource cgroups

theorem Node.edit_leased {leased : Bool} (limits : ∀ maps, (change maps).nsLimit = maps.nsLimit)
    (written : ∀ maps key, ((change maps).nsCounter key).isSome =
      Function.update (fun key => (maps.nsCounter key).isSome) nsKey leased key)
    (cgroups : ∀ maps, (change maps).cgroup = maps.cgroup) :
    (node.edit resource change).observed = node.observed.setLeased resource nsKey leased := by
  apply Observed.eq_of_parts
  · intro other
    unfold observed Observed.setLeased
    by_cases here : other = resource
    · subst here
      simp only [edit_maps, limits]
    · simp only [edit_other _ _ here]
  · intro other
    unfold observed Observed.setLeased
    by_cases here : other = resource
    · subst here
      simp only [Function.update_self, edit_maps]
      exact funext (written _)
    · simp only [Function.update_of_ne here, edit_other _ _ here]
  · exact node.edit_book resource cgroups

theorem Node.mapPods_observed (ns : String) (pods : List Pod) :
    (node.mapPods resource ns pods none).2.observed =
      node.observed.setBook (·.sync resource ns (node.resolved pods) true) := by
  have remapped := Remapped.mapPods node resource ns pods none
  apply Observed.eq_of_parts
  · exact remapped.nsLimit
  · intro other
    exact congrArg (fun counters nsKey => (counters nsKey).isSome) (remapped.nsCounter other)
  · exact node.mapPods_book resource ns pods none

theorem Node.removeCgroups_observed (ns : String) :
    (node.removeCgroups ns fun _ => false).observed = node.observed.setBook (·.clear ns) := by
  have limits (other : Resource) := node.removeCgroups_limits other ns fun _ => false
  apply Observed.eq_of_parts
  · exact fun other => (limits other).1
  · exact fun other => congrArg (fun counters nsKey => (counters nsKey).isSome) (limits other).2
  · exact node.removeCgroups_book ns _

end edits

section calls
variable (s : Syncer) (ns : String) (limit : Int64) (cInfos : List CgroupInfo)

/-- What the requests of a sync do, in order: the third one writes the lease that the
second one has looked up, the fourth one lists the pods. -/
def syncEdits : List (Observed → Observed) :=
  [.setLimit .fd (namespaceKey ns) (some limit.toUInt64), id, .setLeased .fd (namespaceKey ns) true, id,
    .setBook (·.sync .fd ns cInfos true)]

def removeEdits : List (Observed → Observed) :=
  [.setLimit .fd (namespaceKey ns) none, .setLeased .fd (namespaceKey ns) false, .setLimit .proc (namespaceKey ns) none,
    .setLeased .proc (namespaceKey ns) false, .setBook (·.clear ns)]

/-- Every request succeeds. -/
def serveSmooth (world : Cluster) (request : ControllerRequest) : request.Reply × Cluster :=
  world.control s request (smooth request)

/-- The pods and the answers of the resolver stay as they are. -/
def Resolves (pods : List Pod) (world : Cluster) : Prop :=
  world.pods ns = pods ∧ (world.nodes s.nodeID).resolved pods = cInfos

def observe (world : Cluster) : Observed := (world.nodes s.nodeID).observed

variable {s ns limit cInfos} {pods : List Pod}

theorem Resolves.editNode {world : Cluster} (kept : Resolves s ns cInfos pods world) {node : Node}
    (same : node.resolve = (world.nodes s.nodeID).resolve) : Resolves s ns cInfos pods (world.editNode s.nodeID node) := by
  refine ⟨kept.1, ?_⟩
  rw [← kept.2, Cluster.editNode_self]
  unfold Node.resolved
  rw [same]

theorem observe_editNode (world : Cluster) (node : Node) : observe s (world.editNode s.nodeID node) = node.observed :=
  congrArg Node.observed (world.editNode_self s.nodeID node)

section unleased
variable (unleased : s.leaser = none)
include unleased

theorem sync_edits (batchSize : Option Int64) :
    (Action.lift (s.syncNamespace ns limit batchSize)).Edits (serveSmooth s) (observe s) (Resolves s ns cInfos pods)
      (syncEdits ns limit cInfos) := by
  unfold Action.lift Syncer.syncNamespace Syncer.sync Syncer.effectiveLimit
  rw [unleased]
  refine fun world kept => ⟨kept.editNode rfl, ?_, fun world kept => ⟨kept, rfl, fun world kept => ⟨kept.editNode rfl, ?_,
    fun world kept => ⟨kept, rfl, fun later after => ⟨after.editNode ?_, ?_, ?_⟩⟩⟩⟩⟩
  · exact (observe_editNode world _).trans (Node.edit_limit (fun _ => rfl) (fun _ => rfl) (fun _ => rfl))
  · refine (observe_editNode world _).trans (Node.edit_leased (fun _ => rfl) ?_ (fun _ => rfl))
    intro maps key
    by_cases here : key = namespaceKey ns
    · subst here
      simp only [ResourceMaps.updateNsCounter, BpfMap.update_self, Function.update_self, Option.isSome_some]
    · simp only [ResourceMaps.updateNsCounter, BpfMap.update_of_ne _ _ _ _ here, Function.update_of_ne here]
  · exact Node.mapPods_resolve _ _ _ _ _
  · refine (observe_editNode later _).trans ((Node.mapPods_observed ns (world.pods ns)).trans ?_)
    rw [kept.1, after.2]
    rfl
  · cases (serveSmooth s later (.sync (.mapPods .fd ns (world.pods ns)))).1 <;> trivial

theorem remove_edits :
    (s.removeNamespace ns).Edits (serveSmooth s) (observe s) (Resolves s ns cInfos pods) (removeEdits ns) := by
  unfold Syncer.removeNamespace Syncer.releaseLeases
  rw [unleased]
  have dropped (resource : Resource) (node : Node) :
      (node.edit resource fun maps => maps.deleteNsLimit (namespaceKey ns)).observed =
        node.observed.setLimit resource (namespaceKey ns) none :=
    Node.edit_limit (fun _ => rfl) (fun _ => rfl) (fun _ => rfl)
  have forgotten (resource : Resource) (node : Node) :
      (node.edit resource fun maps => maps.deleteNsCounter (namespaceKey ns)).observed =
        node.observed.setLeased resource (namespaceKey ns) false := by
    refine Node.edit_leased (fun _ => rfl) ?_ (fun _ => rfl)
    intro maps key
    by_cases here : key = namespaceKey ns
    · subst here
      simp only [ResourceMaps.deleteNsCounter, BpfMap.delete_self, Function.update_self, Option.isSome_none]
    · simp only [ResourceMaps.deleteNsCounter, BpfMap.delete_of_ne _ _ _ here, Function.update_of_ne here]
  refine fun world kept => ⟨kept.editNode rfl, (observe_editNode world _).trans (dropped .fd _),
    fun world kept => ⟨kept.editNode rfl, (observe_editNode world _).trans (forgotten .fd _),
    fun world kept => ⟨kept.editNode rfl, (observe_editNode world _).trans (dropped .proc _),
    fun world kept => ⟨kept.editNode rfl, (observe_editNode world _).trans (forgotten .proc _),
    fun world kept => ⟨kept.editNode ?_, ?_, trivial⟩⟩⟩⟩⟩
  · exact Node.removeCgroups_resolve _ _ _
  · exact (observe_editNode world _).trans (Node.removeCgroups_observed ns)

end unleased
end calls

section parts
variable (ns : String) (limit : Int64) (cInfos : List CgroupInfo) (turns : List Bool) (seen : Observed)

/-- The view after both calls, when they take turns in this order. -/
def merged : Observed :=
  (merge turns (syncEdits ns limit cInfos) (removeEdits ns)).foldl (fun seen edit => edit seen) seen

/-- What the sync, or else the removal, makes of the limits. -/
def limitEdit (syncs : Bool) (limits : BpfMap UInt64) : BpfMap UInt64 :=
  Function.update limits (namespaceKey ns) (if syncs then some limit.toUInt64 else none)

def leasedEdit (syncs : Bool) (leased : UInt64 → Bool) : UInt64 → Bool := Function.update leased (namespaceKey ns) syncs

def bookEdit (syncs : Bool) (book : Book) : Book := if syncs then book.sync .fd ns cInfos true else book.clear ns

theorem merged_limit (resource : Resource) : (merged ns limit cInfos turns seen).limit resource =
    (match resource with
      | .fd => order 1 1 turns
      | .proc => order 0 3 turns).foldl (fun limits syncs => limitEdit ns limit syncs limits) (seen.limit resource) := by
  have first (resource : Resource) : Pinned (Observed.limit · resource) (limitEdit ns limit true)
      (match resource with | .fd => 1 | .proc => 0) (syncEdits ns limit cInfos) := by
    cases resource <;> exact ⟨fun _ => rfl, fun _ => rfl, fun _ => rfl, fun _ => rfl, fun _ => rfl, rfl⟩
  have second (resource : Resource) : Pinned (Observed.limit · resource) (limitEdit ns limit false)
      (match resource with | .fd => 1 | .proc => 3) (removeEdits ns) := by
    cases resource <;> exact ⟨fun _ => rfl, fun _ => rfl, fun _ => rfl, fun _ => rfl, fun _ => rfl, rfl⟩
  cases resource with
  | fd => exact merge_pinned (first .fd) (second .fd) turns seen
  | proc => exact merge_pinned (first .proc) (second .proc) turns seen

theorem merged_leased (resource : Resource) : (merged ns limit cInfos turns seen).leased resource =
    (match resource with
      | .fd => order 3 2 turns
      | .proc => order 0 4 turns).foldl (fun leased syncs => leasedEdit ns syncs leased) (seen.leased resource) := by
  have first (resource : Resource) : Pinned (Observed.leased · resource) (leasedEdit ns true)
      (match resource with | .fd => 3 | .proc => 0) (syncEdits ns limit cInfos) := by
    cases resource <;> exact ⟨fun _ => rfl, fun _ => rfl, fun _ => rfl, fun _ => rfl, fun _ => rfl, rfl⟩
  have second (resource : Resource) : Pinned (Observed.leased · resource) (leasedEdit ns false)
      (match resource with | .fd => 2 | .proc => 4) (removeEdits ns) := by
    cases resource <;> exact ⟨fun _ => rfl, fun _ => rfl, fun _ => rfl, fun _ => rfl, fun _ => rfl, rfl⟩
  cases resource with
  | fd => exact merge_pinned (first .fd) (second .fd) turns seen
  | proc => exact merge_pinned (first .proc) (second .proc) turns seen

theorem merged_book : (merged ns limit cInfos turns seen).book =
    (order 5 5 turns).foldl (fun book syncs => bookEdit ns cInfos syncs book) seen.book := by
  have first : Pinned Observed.book (bookEdit ns cInfos true) 5 (syncEdits ns limit cInfos) :=
    ⟨fun _ => rfl, fun _ => rfl, fun _ => rfl, fun _ => rfl, fun _ => rfl, rfl⟩
  have second : Pinned Observed.book (bookEdit ns cInfos false) 5 (removeEdits ns) :=
    ⟨fun _ => rfl, fun _ => rfl, fun _ => rfl, fun _ => rfl, fun _ => rfl, rfl⟩
  exact merge_pinned first second turns seen

variable {turns}

theorem merged_eq {others : List Bool} (complete : 5 ≤ turns.count false) (also : 5 ≤ others.count false)
    (limits : order 1 1 turns = order 1 1 others) (leases : order 3 2 turns = order 3 2 others)
    (books : order 5 5 turns = order 5 5 others) :
    merged ns limit cInfos turns seen = merged ns limit cInfos others seen := by
  apply Observed.eq_of_parts
  · intro resource
    rw [merged_limit, merged_limit]
    cases resource with
    | fd => simp only [limits]
    | proc => simp only [order_second (show 1 ≤ 3 by decide) (show 3 ≤ turns.count false by omega),
        order_second (show 1 ≤ 3 by decide) (show 3 ≤ others.count false by omega)]
  · intro resource
    rw [merged_leased, merged_leased]
    cases resource with
    | fd => simp only [leases]
    | proc => simp only [order_second (show 1 ≤ 4 by decide) (show 4 ≤ turns.count false by omega),
        order_second (show 1 ≤ 4 by decide) (show 4 ≤ others.count false by omega)]
  · rw [merged_book, merged_book, books]

theorem merged_inj {others : List Bool} (complete : 5 ≤ turns.count true ∧ 5 ≤ turns.count false)
    (also : 5 ≤ others.count true ∧ 5 ≤ others.count false)
    (same : merged ns limit cInfos turns seen = merged ns limit cInfos others seen) :
    order 1 1 turns = order 1 1 others ∧ order 3 2 turns = order 3 2 others ∧ order 5 5 turns = order 5 5 others := by
  have limits := congrFun ((merged_limit ns limit cInfos turns seen .fd).symm.trans
    ((congrArg (Observed.limit · .fd) same).trans (merged_limit ns limit cInfos others seen .fd))) (namespaceKey ns)
  have leases := congrFun ((merged_leased ns limit cInfos turns seen .fd).symm.trans
    ((congrArg (Observed.leased · .fd) same).trans (merged_leased ns limit cInfos others seen .fd))) (namespaceKey ns)
  have books := congrFun (congrArg Book.nsNameByKey ((merged_book ns limit cInfos turns seen).symm.trans
    ((congrArg Observed.book same).trans (merged_book ns limit cInfos others seen)))) (namespaceKey ns)
  have cases (k l : Nat) (one : 1 ≤ k) (two : 1 ≤ l) (low : k ≤ 5) (lower : l ≤ 5) :
      (order k l turns = [true, false] ∨ order k l turns = [false, true]) ∧
        (order k l others = [true, false] ∨ order k l others = [false, true]) :=
    ⟨order_cases one two (by omega) (by omega), order_cases one two (by omega) (by omega)⟩
  refine ⟨?_, ?_, ?_⟩
  · obtain ⟨one | one, two | two⟩ := cases 1 1 (by decide) (by decide) (by decide) (by decide)
    all_goals rw [one, two]
    all_goals simp [one, two, limitEdit] at limits
  · obtain ⟨one | one, two | two⟩ := cases 3 2 (by decide) (by decide) (by decide) (by decide)
    all_goals rw [one, two]
    all_goals simp [one, two, leasedEdit] at leases
  · obtain ⟨one | one, two | two⟩ := cases 5 5 (by decide) (by decide) (by decide) (by decide)
    all_goals rw [one, two]
    all_goals simp [one, two, bookEdit, Book.sync_named, Book.remove] at books

end parts
/-- The outcome is that of one call after the other, in one of the two orders. -/
def Serialises (s : Syncer) (ns : String) (limit : Int64) (batchSize : Option Int64) (world final : Cluster) : Prop :=
  let sync := Action.lift (s.syncNamespace ns limit batchSize)
  let remove := s.removeNamespace ns
  observe s final = observe s (Flow.exec s smooth remove (Flow.exec s smooth sync world).2).2 ∨
    observe s final = observe s (Flow.exec s smooth sync (Flow.exec s smooth remove world).2).2

/-- An interleaving serialises exactly when the limits, the leases and the locked sections
come in the same order. -/
theorem serialises_iff_same_order {s : Syncer} {ns : String} {limit : Int64} {batchSize : Option Int64} {world final : Cluster}
    {result : Except SyncError Unit} (unleased : s.leaser = none) (turns : List Bool)
    (ended : interleave (serveSmooth s) turns (Action.lift (s.syncNamespace ns limit batchSize)) (s.removeNamespace ns) world =
      (.done result, .done (), final)) :
    Serialises s ns limit batchSize world final ↔ order 1 1 turns = order 3 2 turns ∧ order 3 2 turns = order 5 5 turns := by
  let pods := world.pods ns
  let cInfos := (world.nodes s.nodeID).resolved pods
  have start : Resolves s ns cInfos pods world := ⟨rfl, rfl⟩
  have syncs : (Action.lift (s.syncNamespace ns limit batchSize)).Edits (serveSmooth s) (observe s)
    (Resolves s ns cInfos pods) (syncEdits ns limit cInfos) := sync_edits unleased batchSize
  have removes : (s.removeNamespace ns).Edits (serveSmooth s) (observe s) (Resolves s ns cInfos pods) (removeEdits ns) :=
    remove_edits unleased
  have complete := syncs.turns removes start ended
  change 5 ≤ turns.count true ∧ 5 ≤ turns.count false at complete
  have seen : observe s final = merged ns limit cInfos turns (observe s world) := by
    have same := syncs.interleave removes start turns
    rw [ended] at same
    exact same
  let early : List Bool := [true, true, true, true, true, false, false, false, false, false]
  let late : List Bool := [false, false, false, false, false, true, true, true, true, true]
  have first : observe s (Flow.exec s smooth (s.removeNamespace ns)
      (Flow.exec s smooth (Action.lift (s.syncNamespace ns limit batchSize)) world).2).2 =
      merged ns limit cInfos early (observe s world) := by
    obtain ⟨kept, one⟩ := syncs.exec start
    obtain ⟨_, two⟩ := removes.exec kept
    rw [one] at two
    exact two
  have second : observe s (Flow.exec s smooth (Action.lift (s.syncNamespace ns limit batchSize))
      (Flow.exec s smooth (s.removeNamespace ns) world).2).2 = merged ns limit cInfos late (observe s world) := by
    obtain ⟨kept, one⟩ := removes.exec start
    obtain ⟨_, two⟩ := syncs.exec kept
    rw [one] at two
    exact two
  unfold Serialises
  simp only [seen, first, second]
  constructor
  · intro serial
    rcases serial with same | same
    · obtain ⟨limits, leases, books⟩ := merged_inj ns limit cInfos (observe s world) complete (by decide) same
      rw [limits, leases, books]
      exact ⟨rfl, rfl⟩
    · obtain ⟨limits, leases, books⟩ := merged_inj ns limit cInfos (observe s world) complete (by decide) same
      rw [limits, leases, books]
      exact ⟨rfl, rfl⟩
  · intro ⟨limits, leases⟩
    have cases := order_cases (show 1 ≤ 5 by decide) (show 1 ≤ 5 by decide) complete.1 complete.2
    rcases cases with books | books
    · rw [books] at leases
      rw [leases] at limits
      exact .inl (merged_eq ns limit cInfos (observe s world) complete.2 (by decide) limits leases books)
    · rw [books] at leases
      rw [leases] at limits
      exact .inr (merged_eq ns limit cInfos (observe s world) complete.2 (by decide) limits leases books)

def raceSyncer : Syncer := ⟨"node", none⟩

/-- The world after a sync and a removal of `team` that took turns in this order. -/
def raced (turns : List Bool) :=
  interleave (serveSmooth raceSyncer) turns (Action.lift (raceSyncer.syncNamespace "team" 5 none))
    (raceSyncer.removeNamespace "team") (.empty [])

/-- The removal follows the sync in each place, without waiting for its end. -/
theorem overlapping_serialises :
    Serialises raceSyncer "team" 5 none (.empty [])
      (raced [true, false, true, true, false, true, true, false, false, false]).2.2 :=
  (serialises_iff_same_order rfl [true, false, true, true, false, true, true, false, false, false] rfl).mpr
    ⟨by decide, by decide⟩

/-- The removal runs between the lookup and the update of the sync's counter reset: the
lease and the books are there, but no limit. -/
theorem removal_inside_sync :
    let final := (raced [true, true, false, false, false, false, false, true, true, true]).2.2
    ((final.nodes "node").bpf.fd.nsLimit (namespaceKey "team") = none ∧
      ((final.nodes "node").bpf.fd.nsCounter (namespaceKey "team")).isSome ∧
      ((final.nodes "node").nsCgroups "team").isSome) ∧
    ¬ Serialises raceSyncer "team" 5 none (.empty []) final := by
  intro final
  have unlimited : (final.nodes "node").bpf.fd.nsLimit (namespaceKey "team") = none := by decide +kernel
  have leased : ((final.nodes "node").bpf.fd.nsCounter (namespaceKey "team")).isSome = true := by decide +kernel
  refine ⟨⟨unlimited, leased, by decide +kernel⟩, ?_⟩
  intro serial
  rcases serial with same | same
  · have absent := (congrFun (congrFun (congrArg Observed.leased same) .fd) (namespaceKey "team")).symm.trans leased
    revert absent
    decide +kernel
  · have present := (congrFun (congrFun (congrArg Observed.limit same) .fd) (namespaceKey "team")).symm.trans unlimited
    revert present
    decide +kernel

end QuotaManager
