import QuotaManager.Proofs.Bookkeeping

/-! What a sync or a removal makes of its own node the second time: nothing. A node is
in sync for a resource when it holds what a sync would write; a sync of the other
resource, with the same pods, keeps that. -/

namespace QuotaManager
open Enforcer

namespace Enforcer.BpfMap
variable {β : Type} {map : BpfMap β} {key : UInt64}

theorem update_known {value : β} (known : map key = some value) : map.update key value = map := by
  rw [update, ← known, Function.update_eq_self]

theorem delete_unknown (unknown : map key = none) : map.delete key = map := by
  rw [delete, ← unknown, Function.update_eq_self]

end Enforcer.BpfMap

/-- What a book holds after a section that has entered all of these cgroups. -/
structure Book.InSync (book : Book) (resource : Resource) (ns : String) (cInfos : List CgroupInfo) : Prop where
  mapped : ∀ cgroupID ∈ identifiers cInfos, book.cgroup resource cgroupID = some (namespaceKey ns)
  paths : ∀ (any : Resource) (other : Book), ∀ cgroupID ∈ identifiers cInfos,
    (cInfos.foldl (Book.enter any ns) other).cgroupPaths cgroupID = book.cgroupPaths cgroupID
  tracked : book.nsCgroups ns = some (identifiers cInfos)
  named : book.nsNameByKey (namespaceKey ns) = some ns

namespace Book
variable {resource : Resource} {ns : String} {book : Book} {cInfos : List CgroupInfo}

/-- The path that is entered last does not depend on the book. -/
theorem entered_paths_same (one two : Resource) (first second : Book) {cgroupID : UInt64}
    (inside : cgroupID ∈ identifiers cInfos) :
    (cInfos.foldl (enter one ns) first).cgroupPaths cgroupID = (cInfos.foldl (enter two ns) second).cgroupPaths cgroupID := by
  induction cInfos generalizing first second with
  | nil => exact absurd inside (Finset.notMem_empty _)
  | cons cInfo rest ih =>
    by_cases later : cgroupID ∈ identifiers rest
    · exact ih _ _ later
    · have here : cgroupID = cInfo.cgroupID := by
        have either : cgroupID = cInfo.cgroupID ∨ cgroupID ∈ identifiers rest := by simpa [identifiers] using inside
        exact either.resolve_right later
      subst here
      rw [List.foldl_cons, List.foldl_cons, entered_paths _ _ later, entered_paths _ _ later]
      exact (BpfMap.update_self ..).trans (BpfMap.update_self ..).symm

theorem sync_inSync (resource : Resource) (ns : String) (book : Book) (cInfos : List CgroupInfo) :
    (book.sync resource ns cInfos true).InSync resource ns cInfos := by
  refine ⟨?_, ?_, ?_, ?_⟩
  · intro cgroupID inside
    rw [sync_cgroup, if_pos ⟨rfl, inside⟩]
  · intro any other cgroupID inside
    exact entered_paths_same any resource other (book.named ns) inside
  · rw [sync_nsCgroups, if_pos rfl, Function.update_self]
  · rw [sync_named]
    exact BpfMap.update_self ..

theorem InSync.sync (inSync : book.InSync resource ns cInfos) (other : Resource) :
    (book.sync other ns cInfos true).InSync resource ns cInfos := by
  have own := sync_inSync other ns book cInfos
  refine ⟨?_, own.paths, own.tracked, own.named⟩
  intro cgroupID inside
  rw [sync_cgroup]
  split
  · rfl
  · exact inSync.mapped cgroupID inside

theorem InSync.sync_eq (inSync : book.InSync resource ns cInfos) : book.sync resource ns cInfos true = book := by
  have cgroups : (book.sync resource ns cInfos true).cgroup = book.cgroup := by
    funext other cgroupID
    rw [sync_cgroup]
    split
    next here => rw [here.1, inSync.mapped cgroupID here.2]
    · rfl
  have paths : (book.sync resource ns cInfos true).cgroupPaths = book.cgroupPaths := by
    funext cgroupID
    by_cases inside : cgroupID ∈ identifiers cInfos
    · exact inSync.paths resource (book.named ns) cgroupID inside
    · exact sync_paths book cInfos true inside
  have tracked : (book.sync resource ns cInfos true).nsCgroups = book.nsCgroups := by
    rw [sync_nsCgroups, if_pos rfl, ← inSync.tracked, Function.update_eq_self]
  have named : (book.sync resource ns cInfos true).nsNameByKey = book.nsNameByKey := by
    rw [sync_named, BpfMap.update_known inSync.named]
  calc book.sync resource ns cInfos true
      = ⟨(book.sync resource ns cInfos true).cgroup, (book.sync resource ns cInfos true).nsCgroups,
          (book.sync resource ns cInfos true).cgroupPaths, (book.sync resource ns cInfos true).nsNameByKey⟩ := rfl
    _ = book := by rw [cgroups, paths, tracked, named]

end Book

namespace Node

/-- A node is its book, its limits and counters, and its resolver. -/
theorem eq_of_book {one two : Node} (book : one.book = two.book) (resolve : one.resolve = two.resolve)
    (remapped : Remapped two one) : one = two := by
  obtain ⟨⟨⟨_, _, _, _⟩, ⟨_, _, _, _⟩⟩, _, _, _, _⟩ := one
  obtain ⟨⟨⟨_, _, _, _⟩, ⟨_, _, _, _⟩⟩, _, _, _, _⟩ := two
  have cgroups := congrArg Book.cgroup book
  have fdCgroup := congrFun cgroups .fd
  have procCgroup := congrFun cgroups .proc
  have tracked := congrArg Book.nsCgroups book
  have paths := congrArg Book.cgroupPaths book
  have named := congrArg Book.nsNameByKey book
  have fdCounter := remapped.cgroupCounter .fd
  have procCounter := remapped.cgroupCounter .proc
  have fdLimit := remapped.nsLimit .fd
  have procLimit := remapped.nsLimit .proc
  have fdLease := remapped.nsCounter .fd
  have procLease := remapped.nsCounter .proc
  simp only [Node.book, Bpf.maps] at *
  subst_vars
  rfl

/-- What a node holds after a sync of a resource with this limit. -/
structure InSync (node : Node) (resource : Resource) (ns : String) (limit : Int64) (pods : List Pod) : Prop where
  book : node.book.InSync resource ns (node.resolved pods)
  stored : (node.bpf.maps resource).nsLimit (namespaceKey ns) = some limit.toUInt64
  counter : ∃ lease, (node.bpf.maps resource).nsCounter (namespaceKey ns) = some lease ∧ lease.leaseBudget = microSlice limit

variable {node : Node} {resource other : Resource} {ns : String} {limit share : Int64} {pods : List Pod}

theorem synced_book : (node.synced resource ns limit pods).book = node.book.sync resource ns (node.resolved pods) true := by
  have limited : (node.limited resource ns limit).book = node.book := edit_book _ _ fun _ => rfl
  unfold synced
  rw [mapPods_book, limited]
  rfl

theorem synced_resolve : (node.synced resource ns limit pods).resolve = node.resolve := mapPods_resolve _ _ _ _ _

theorem synced_resolved : (node.synced resource ns limit pods).resolved pods = node.resolved pods := by
  unfold resolved
  rw [synced_resolve]

theorem synced_inSync : (node.synced resource ns limit pods).InSync resource ns limit pods := by
  have remapped := Remapped.mapPods (node.limited resource ns limit) resource ns pods none
  refine ⟨?_, ?_, ?_⟩
  · rw [synced_book, synced_resolved]
    exact Book.sync_inSync ..
  · unfold synced
    rw [remapped.nsLimit, limited, edit_maps]
    exact BpfMap.update_self ..
  · refine ⟨renewedLease ((node.bpf.maps resource).nsCounter (namespaceKey ns)) limit, ?_, ?_⟩
    · unfold synced
      rw [remapped.nsCounter, limited, edit_maps]
      exact BpfMap.update_self ..
    · unfold renewedLease
      split <;> rfl

theorem InSync.synced_other (inSync : node.InSync resource ns limit pods) (different : resource ≠ other) :
    (node.synced other ns share pods).InSync resource ns limit pods := by
  have remapped := Remapped.mapPods (node.limited other ns share) other ns pods none
  have untouched : (node.limited other ns share).bpf.maps resource = node.bpf.maps resource := edit_other _ _ different
  refine ⟨?_, ?_, ?_⟩
  · rw [synced_book, synced_resolved]
    exact inSync.book.sync other
  · unfold synced
    rw [remapped.nsLimit, untouched]
    exact inSync.stored
  · unfold synced
    rw [remapped.nsCounter, untouched]
    exact inSync.counter

/-- A second sync finds everything as it would write it. -/
theorem InSync.synced_eq (inSync : node.InSync resource ns limit pods) : node.synced resource ns limit pods = node := by
  obtain ⟨lease, counted, budget⟩ := inSync.counter
  have renewed : renewedLease (some lease) limit = lease := by
    unfold renewedLease
    rw [← budget]
  have limited : node.limited resource ns limit = node := by
    have same : (((node.bpf.maps resource).updateNsLimit (namespaceKey ns) limit).resetNsCounter (namespaceKey ns) limit) =
        node.bpf.maps resource := by
      unfold ResourceMaps.resetNsCounter ResourceMaps.updateNsCounter ResourceMaps.updateNsLimit
      simp only [counted, renewed, BpfMap.update_known inSync.stored, BpfMap.update_known counted]
    unfold Node.limited edit
    dsimp only
    rw [same]
    cases resource <;> rfl
  apply eq_of_book
  · rw [synced_book, inSync.book.sync_eq]
  · exact synced_resolve
  · have remapped := Remapped.mapPods (node.limited resource ns limit) resource ns pods none
    rw [limited] at remapped
    unfold synced
    rw [limited]
    exact remapped

/-- What a removal leaves. -/
structure Cleared (node : Node) (ns : String) : Prop where
  limit : ∀ resource, (node.bpf.maps resource).nsLimit (namespaceKey ns) = none
  counter : ∀ resource, (node.bpf.maps resource).nsCounter (namespaceKey ns) = none
  tracked : node.nsCgroups ns = none
  named : node.nsNameByKey (namespaceKey ns) = none

theorem removed_cleared (node : Node) (ns : String) : (node.removed ns).Cleared ns := by
  have books : (node.removed ns).book = (node.unlimited ns).book.clear ns := removeCgroups_book ..
  refine ⟨fun resource => ?_, fun resource => ?_, ?_, ?_⟩
  · rw [removed, (removeCgroups_limits _ resource ns _).1]
    cases resource <;> exact BpfMap.delete_self ..
  · rw [removed, (removeCgroups_limits _ resource ns _).2]
    cases resource <;> exact BpfMap.delete_self ..
  · change (node.removed ns).book.nsCgroups ns = none
    rw [books]
    exact Function.update_self ..
  · change (node.removed ns).book.nsNameByKey _ = none
    rw [books]
    exact BpfMap.delete_self ..

/-- A second removal finds nothing left. -/
theorem Cleared.removed_eq (cleared : node.Cleared ns) : node.removed ns = node := by
  have unlimited : node.unlimited ns = node := by
    have kept (resource : Resource) : ((node.bpf.maps resource).deleteNsLimit (namespaceKey ns)).deleteNsCounter (namespaceKey ns) =
        node.bpf.maps resource := by
      unfold ResourceMaps.deleteNsCounter ResourceMaps.deleteNsLimit
      simp only [BpfMap.delete_unknown (cleared.limit resource), BpfMap.delete_unknown (cleared.counter resource)]
    have fd := kept .fd
    have proc := kept .proc
    unfold Node.unlimited edit
    simp only [Bpf.maps, Bpf.withMaps] at fd proc ⊢
    rw [fd, proc]
  unfold removed removeCgroups
  simp only [unlimited, cleared.tracked, BpfMap.delete_unknown cleared.named]

end Node
end QuotaManager
