import QuotaManager.Proofs.Sequential

/-! The locked sections of a sync and of a removal. They see a node as a book: which
cgroups are mapped, tracked and named. Limits and counters are outside of it. -/

namespace QuotaManager
open Enforcer

/-- What a node keeps under the lock. -/
structure Book where
  cgroup : Resource → BpfMap UInt64
  nsCgroups : String → Option (Finset UInt64)
  cgroupPaths : BpfMap String
  nsNameByKey : BpfMap String

def Node.book (node : Node) : Book where
  cgroup resource := (node.bpf.maps resource).cgroup
  nsCgroups := node.nsCgroups
  cgroupPaths := node.cgroupPaths
  nsNameByKey := node.nsNameByKey

def identifiers (cInfos : List CgroupInfo) : Finset UInt64 := (cInfos.map (·.cgroupID)).toFinset

namespace Book
variable (resource : Resource) (ns : String)

def named (book : Book) : Book := { book with nsNameByKey := book.nsNameByKey.update (namespaceKey ns) ns }

def enter (book : Book) (cInfo : CgroupInfo) : Book :=
  { book with
    cgroup := Function.update book.cgroup resource ((book.cgroup resource).update cInfo.cgroupID (namespaceKey ns))
    cgroupPaths := book.cgroupPaths.update cInfo.cgroupID cInfo.cgroupPath }

def track (book : Book) (known : Finset UInt64) : Book :=
  { book with nsCgroups := Function.update book.nsCgroups ns (some known) }

/-- The section of a sync that enters some of the cgroups, and tracks them if these are all. -/
def sync (book : Book) (cInfos : List CgroupInfo) (complete : Bool) : Book :=
  let entered := cInfos.foldl (enter resource ns) (book.named ns)
  if complete then entered.track ns (identifiers cInfos) else entered

/-- The section of a removal. A mapping whose deletion fails stays. -/
def remove (book : Book) (stays : Resource → UInt64 → Bool) : Book :=
  let known := (book.nsCgroups ns).getD ∅
  { cgroup := fun resource cgroupID =>
      if cgroupID ∈ known ∧ ¬ stays resource cgroupID then none else book.cgroup resource cgroupID
    nsCgroups := Function.update book.nsCgroups ns none
    cgroupPaths := fun cgroupID => if cgroupID ∈ known then none else book.cgroupPaths cgroupID
    nsNameByKey := book.nsNameByKey.delete (namespaceKey ns) }

/-- The section of a removal whose deletions succeed. -/
abbrev clear (book : Book) : Book := book.remove ns fun _ _ => false

/-- Deletions that find no entry may fail. -/
theorem remove_eq_clear {book : Book} {stays : Resource → UInt64 → Bool}
    (idle : ∀ resource cgroupID, book.cgroup resource cgroupID ≠ none → stays resource cgroupID = false) :
    book.remove ns stays = book.clear ns := by
  have cgroup : (book.remove ns stays).cgroup = (book.clear ns).cgroup := by
    funext resource cgroupID
    unfold clear remove
    cases mapped : book.cgroup resource cgroupID with
    | none => simp only [mapped, ite_self]
    | some nsKey => simp only [idle resource cgroupID (by rw [mapped]; exact nofun)]
  exact congrArg (fun cgroup => { book.clear ns with cgroup }) cgroup

section sync
variable {resource ns} (book : Book) (cInfos : List CgroupInfo) (complete : Bool)

theorem entered_cgroup (other : Resource) (cgroupID : UInt64) :
    (cInfos.foldl (enter resource ns) book).cgroup other cgroupID =
      if other = resource ∧ cgroupID ∈ identifiers cInfos then some (namespaceKey ns) else book.cgroup other cgroupID := by
  induction cInfos generalizing book with
  | nil => simp [identifiers]
  | cons cInfo rest ih =>
    rw [List.foldl_cons, ih]
    have names : cgroupID ∈ identifiers (cInfo :: rest) ↔ cgroupID = cInfo.cgroupID ∨ cgroupID ∈ identifiers rest := by
      simp [identifiers]
    simp only [names]
    by_cases here : other = resource
    · subst here
      by_cases first : cgroupID = cInfo.cgroupID
      · simp [enter, first]
      · simp [enter, first, BpfMap.update_of_ne]
    · simp [enter, here]

theorem entered_paths {cgroupID : UInt64} (elsewhere : cgroupID ∉ identifiers cInfos) :
    (cInfos.foldl (enter resource ns) book).cgroupPaths cgroupID = book.cgroupPaths cgroupID := by
  induction cInfos generalizing book with
  | nil => rfl
  | cons cInfo rest ih =>
    have names : cgroupID ≠ cInfo.cgroupID ∧ cgroupID ∉ identifiers rest := by simpa [identifiers] using elsewhere
    rw [List.foldl_cons, ih _ names.2]
    exact BpfMap.update_of_ne _ _ _ _ names.1

theorem entered_frame : (cInfos.foldl (enter resource ns) book).nsCgroups = book.nsCgroups ∧
    (cInfos.foldl (enter resource ns) book).nsNameByKey = book.nsNameByKey := by
  induction cInfos generalizing book with
  | nil => exact ⟨rfl, rfl⟩
  | cons cInfo rest ih => exact ih _

theorem sync_cgroup (other : Resource) (cgroupID : UInt64) :
    (book.sync resource ns cInfos complete).cgroup other cgroupID =
      if other = resource ∧ cgroupID ∈ identifiers cInfos then some (namespaceKey ns) else book.cgroup other cgroupID := by
  have entered := @entered_cgroup resource ns (book.named ns) cInfos other cgroupID
  cases complete <;> exact entered

theorem sync_paths {cgroupID : UInt64} (elsewhere : cgroupID ∉ identifiers cInfos) :
    (book.sync resource ns cInfos complete).cgroupPaths cgroupID = book.cgroupPaths cgroupID := by
  cases complete <;> exact entered_paths (book.named ns) cInfos elsewhere

theorem sync_nsCgroups : (book.sync resource ns cInfos complete).nsCgroups =
    if complete then Function.update book.nsCgroups ns (some (identifiers cInfos)) else book.nsCgroups := by
  have frame := (@entered_frame resource ns (book.named ns) cInfos).1
  cases complete with
  | false => exact frame
  | true => exact congrArg (Function.update · ns (some (identifiers cInfos))) frame

theorem sync_named : (book.sync resource ns cInfos complete).nsNameByKey = book.nsNameByKey.update (namespaceKey ns) ns := by
  have frame := (@entered_frame resource ns (book.named ns) cInfos).2
  cases complete <;> exact frame

end sync

end Book

namespace Node
variable (node : Node) (resource : Resource) (ns : String)

/-- Limits and counters are not in the book. -/
theorem edit_book {change : ResourceMaps → ResourceMaps} (same : ∀ maps, (change maps).cgroup = maps.cgroup) :
    (node.edit resource change).book = node.book := by
  unfold book
  congr 1
  funext other
  by_cases here : other = resource
  · subst here
    rw [edit_maps, same]
  · rw [edit_other _ _ here]

/-- The cgroups that a section enters before a fault ends it. -/
def taken (cInfos : List CgroupInfo) : Option Nat → List CgroupInfo
  | none => cInfos
  | some fault => cInfos.take fault

/-- The fault comes too late to hit the section. -/
def completes (cInfos : List CgroupInfo) : Option Nat → Bool
  | none => true
  | some fault => cInfos.length ≤ fault

theorem enter_book (cInfo : CgroupInfo) :
    ((node.updateCgroupMapping resource cInfo.cgroupID (namespaceKey ns)).recordPath cInfo).book =
      node.book.enter resource ns cInfo := by
  unfold book Book.enter
  congr 1
  funext other
  by_cases same : other = resource
  · subst same
    simp only [Function.update_self]
    cases other <;> rfl
  · rw [Function.update_of_ne same]
    cases other <;> cases resource <;> first | rfl | exact absurd rfl same

theorem mapResolved_cons (cInfo : CgroupInfo) (rest : List CgroupInfo) {fault : Option Nat} (succeeds : fault ≠ some 0)
    (known : Finset UInt64) :
    mapResolved resource (namespaceKey ns) (cInfo :: rest) fault known node =
      mapResolved resource (namespaceKey ns) rest (fault.map (· - 1)) (insert cInfo.cgroupID known)
        ((node.updateCgroupMapping resource cInfo.cgroupID (namespaceKey ns)).recordPath cInfo) := by
  rw [mapResolved, if_neg succeeds]

theorem mapResolved_book (cInfos : List CgroupInfo) (fault : Option Nat) (known : Finset UInt64) :
    let ended := mapResolved resource (namespaceKey ns) cInfos fault known node
    ended.2.book = (taken cInfos fault).foldl (Book.enter resource ns) node.book ∧
      match ended.1 with
      | .ok all => completes cInfos fault = true ∧ all = identifiers cInfos ∪ known
      | .error _ => completes cInfos fault = false := by
  induction cInfos generalizing fault known node with
  | nil =>
    cases fault with
    | none => exact ⟨rfl, rfl, by simp [identifiers]⟩
    | some fault => exact ⟨by simp [taken, mapResolved], by simp [completes], by simp [identifiers]⟩
  | cons cInfo rest ih =>
    by_cases fails : fault = some 0
    · subst fails
      exact ⟨rfl, rfl⟩
    · rw [mapResolved_cons node resource ns cInfo rest fails known]
      obtain ⟨books, answers⟩ := ih
        ((node.updateCgroupMapping resource cInfo.cgroupID (namespaceKey ns)).recordPath cInfo)
        (fault.map (· - 1)) (insert cInfo.cgroupID known)
      have onward : taken (cInfo :: rest) fault = cInfo :: taken rest (fault.map (· - 1)) ∧
          completes (cInfo :: rest) fault = completes rest (fault.map (· - 1)) := by
        cases fault with
        | none => exact ⟨rfl, rfl⟩
        | some fault =>
          cases fault with
          | zero => exact absurd rfl fails
          | succ fault => exact ⟨rfl, by simp [completes]⟩
      have names : identifiers (cInfo :: rest) ∪ known = identifiers rest ∪ insert cInfo.cgroupID known := by
        simp [identifiers, Finset.insert_union]
      rw [onward.1, onward.2, names, List.foldl_cons, ← enter_book]
      exact ⟨books, answers⟩

theorem mapPods_book (pods : List Pod) (fault : Option Nat) :
    (node.mapPods resource ns pods fault).2.book =
      node.book.sync resource ns (taken (node.resolved pods) fault) (completes (node.resolved pods) fault) := by
  have loop := mapResolved_book { node with nsNameByKey := node.nsNameByKey.update (namespaceKey ns) ns } resource ns
    (node.resolved pods) fault ∅
  simp only at loop
  obtain ⟨books, answers⟩ := loop
  unfold mapPods Book.sync
  simp only
  split
  next failed =>
    rw [failed] at books answers
    rw [show completes (node.resolved pods) fault = false from answers]
    exact books
  next all after ended =>
    rw [ended] at books answers
    obtain ⟨complete, known⟩ := answers
    have whole : taken (node.resolved pods) fault = node.resolved pods := by
      cases fault with
      | none => rfl
      | some fault => exact List.take_of_length_le (by simpa [completes] using complete)
    rw [complete, if_pos rfl]
    rw [whole] at books ⊢
    rw [known, Finset.union_empty]
    have tracked : (after.track ns (identifiers (node.resolved pods))).book =
        after.book.track ns (identifiers (node.resolved pods)) := rfl
    rw [tracked, show after.book = _ from books]
    rfl

theorem mapResolved_resolve (cInfos : List CgroupInfo) (nsKey : UInt64) (fault : Option Nat) (known : Finset UInt64) :
    (mapResolved resource nsKey cInfos fault known node).2.resolve = node.resolve := by
  induction cInfos generalizing fault known node with
  | nil => rfl
  | cons cInfo rest ih =>
    rw [mapResolved]
    split
    · rfl
    · exact ih _ _ _

theorem mapPods_resolve (pods : List Pod) (fault : Option Nat) : (node.mapPods resource ns pods fault).2.resolve = node.resolve := by
  have kept := mapResolved_resolve { node with nsNameByKey := node.nsNameByKey.update (namespaceKey ns) ns } resource
    (node.resolved pods) (namespaceKey ns) fault ∅
  unfold mapPods
  simp only
  split
  next ended =>
    rw [ended] at kept
    exact kept
  next ended =>
    rw [ended] at kept
    exact kept

theorem removeCgroups_book (fails : Nat → Bool) : (node.removeCgroups ns fails).book =
    node.book.remove ns fun resource cgroupID => fails (mappingDeletion resource cgroupID) := by
  have mappings : (node.removeCgroups ns fails).book.cgroup =
      (node.book.remove ns fun resource cgroupID => fails (mappingDeletion resource cgroupID)).cgroup := by
    funext resource
    exact congrArg ResourceMaps.cgroup (node.removeCgroups_maps resource ns fails)
  cases tracked : node.nsCgroups ns with
  | none =>
    have same : Function.update node.nsCgroups ns none = node.nsCgroups := by
      rw [← tracked, Function.update_eq_self]
    unfold removeCgroups Book.remove at *
    simp [book, tracked, same]
  | some known =>
    unfold removeCgroups Book.remove at *
    simp only [tracked] at mappings ⊢
    simp only [book, tracked, Option.getD_some] at mappings ⊢
    congr 1

end Node
end QuotaManager
