import QuotaManager.Logic.Confined
import QuotaManager.Proofs.Bookkeeping

/-! Syncs and removals of two namespaces. A node is seen through cells, and each request
of an operation reads and writes only the cells of its own namespace: those under its
name and its key, and those of the cgroups that it tracks or resolves. -/

namespace QuotaManager
open Enforcer

inductive Cell where
  | limit (resource : Resource) (nsKey : UInt64)
  | lease (resource : Resource) (nsKey : UInt64)
  | mapping (resource : Resource) (cgroupID : UInt64)
  | counter (resource : Resource) (cgroupID : UInt64)
  | tracked (ns : String)
  | path (cgroupID : UInt64)
  | name (nsKey : UInt64)
  | answers

abbrev Cell.Content : Cell → Type
  | .limit _ _ | .mapping _ _ | .counter _ _ => Option UInt64
  | .lease _ _ => Option CpuLease
  | .tracked _ => Option (Finset UInt64)
  | .path _ | .name _ => Option String
  | .answers => String → Option (List CgroupInfo)

def Node.cell (node : Node) : (cell : Cell) → cell.Content
  | .limit resource nsKey => (node.bpf.maps resource).nsLimit nsKey
  | .lease resource nsKey => (node.bpf.maps resource).nsCounter nsKey
  | .mapping resource cgroupID => (node.bpf.maps resource).cgroup cgroupID
  | .counter resource cgroupID => (node.bpf.maps resource).cgroupCounter cgroupID
  | .tracked ns => node.nsCgroups ns
  | .path cgroupID => node.cgroupPaths cgroupID
  | .name nsKey => node.nsNameByKey nsKey
  | .answers => node.resolve

/-- The cells of a namespace that owns some of the cgroups. -/
def Cell.Of (ns : String) (owned : UInt64 → Prop) : Cell → Prop
  | .limit _ nsKey | .lease _ nsKey | .name nsKey => nsKey = namespaceKey ns
  | .mapping _ cgroupID | .counter _ cgroupID | .path cgroupID => owned cgroupID
  | .tracked other => other = ns
  | .answers => False

/-- A cgroup that a node tracks for a namespace or resolves for one of its pods. -/
def Cluster.Owns (world : Cluster) (node ns : String) (cgroupID : UInt64) : Prop :=
  cgroupID ∈ ((world.nodes node).nsCgroups ns).getD ∅ ∨
    cgroupID ∈ identifiers ((world.nodes node).resolved (world.pods ns))

theorem Node.cell_ext {one two : Node} (same : ∀ cell, one.cell cell = two.cell cell) : one = two := by
  have maps (resource : Resource) : one.bpf.maps resource = two.bpf.maps resource := by
    have equal : ∀ one two : ResourceMaps, one.cgroup = two.cgroup → one.cgroupCounter = two.cgroupCounter →
        one.nsLimit = two.nsLimit → one.nsCounter = two.nsCounter → one = two := by
      rintro ⟨_, _, _, _⟩ ⟨_, _, _, _⟩ rfl rfl rfl rfl
      rfl
    exact equal _ _ (funext fun cgroupID => same (.mapping resource cgroupID))
      (funext fun cgroupID => same (.counter resource cgroupID)) (funext fun nsKey => same (.limit resource nsKey))
      (funext fun nsKey => same (.lease resource nsKey))
  have equal : ∀ one two : Node, one.bpf.maps .fd = two.bpf.maps .fd → one.bpf.maps .proc = two.bpf.maps .proc →
      one.resolve = two.resolve → one.nsCgroups = two.nsCgroups → one.cgroupPaths = two.cgroupPaths →
      one.nsNameByKey = two.nsNameByKey → one = two := by
    rintro ⟨⟨_, _⟩, _, _, _, _⟩ ⟨⟨_, _⟩, _, _, _, _⟩ rfl rfl rfl rfl rfl rfl
    rfl
  exact equal _ _ (maps .fd) (maps .proc) (same .answers) (funext fun ns => same (.tracked ns))
    (funext fun cgroupID => same (.path cgroupID)) (funext fun nsKey => same (.name nsKey))

section node
variable {ns : String} {owned : UInt64 → Prop}

/-- A change of the maps of a resource that is about one namespace key only. -/
structure About (nsKey : UInt64) (change : ResourceMaps → ResourceMaps) : Prop where
  cgroup : ∀ maps, (change maps).cgroup = maps.cgroup
  cgroupCounter : ∀ maps, (change maps).cgroupCounter = maps.cgroupCounter
  others : ∀ maps other, other ≠ nsKey →
    (change maps).nsLimit other = maps.nsLimit other ∧ (change maps).nsCounter other = maps.nsCounter other
  own : ∀ one two : ResourceMaps, one.nsLimit nsKey = two.nsLimit nsKey → one.nsCounter nsKey = two.nsCounter nsKey →
    (change one).nsLimit nsKey = (change two).nsLimit nsKey ∧ (change one).nsCounter nsKey = (change two).nsCounter nsKey

theorem About.frame {change : ResourceMaps → ResourceMaps} (about : About (namespaceKey ns) change) (resource : Resource)
    (node : Node) {cell : Cell} (outside : ¬ cell.Of ns owned) : (node.edit resource change).cell cell = node.cell cell := by
  have elsewhere {other : Resource} (different : other ≠ resource) := node.edit_other change different
  cases cell with
  | tracked | path | name | answers => rfl
  | limit other nsKey | lease other nsKey | mapping other cgroupID | counter other cgroupID =>
    by_cases same : other = resource
    · subst same
      simp only [Node.cell, Node.edit_maps]
      first
        | exact (about.others _ _ outside).1
        | exact (about.others _ _ outside).2
        | exact congrFun (about.cgroup _) _
        | exact congrFun (about.cgroupCounter _) _
    · simp only [Node.cell, elsewhere same]

theorem About.same {change : ResourceMaps → ResourceMaps} (about : About (namespaceKey ns) change) (resource : Resource)
    {one two : Node} (agree : Agree Node.cell (Cell.Of ns owned) one two) :
    Agree Node.cell (Cell.Of ns owned) (one.edit resource change) (two.edit resource change) := by
  intro cell inside
  have before := agree cell inside
  cases cell with
  | tracked | path | name | answers => exact before
  | limit other nsKey | lease other nsKey | mapping other cgroupID | counter other cgroupID =>
    by_cases same : other = resource
    · subst same
      have own := about.own (one.bpf.maps other) (two.bpf.maps other) (agree (.limit other _) rfl) (agree (.lease other _) rfl)
      simp only [Node.cell, Node.edit_maps]
      first
        | (obtain rfl : nsKey = namespaceKey ns := inside; first | exact own.1 | exact own.2)
        | (rw [about.cgroup, about.cgroup]; exact before)
        | (rw [about.cgroupCounter, about.cgroupCounter]; exact before)
    · simpa only [Node.cell, Node.edit_other _ _ same] using before

theorem taken_owned {cInfos : List CgroupInfo} (known : ∀ cgroupID ∈ identifiers cInfos, owned cgroupID) (fault : Option Nat) :
    ∀ cgroupID ∈ identifiers (Node.taken cInfos fault), owned cgroupID := by
  intro cgroupID inside
  apply known
  cases fault with
  | none => exact inside
  | some fault =>
    simp only [identifiers, Node.taken, List.mem_toFinset, List.mem_map] at inside ⊢
    obtain ⟨cInfo, member, rfl⟩ := inside
    exact ⟨cInfo, List.mem_of_mem_take member, rfl⟩

theorem mapPods_frame (node : Node) (resource : Resource) {pods : List Pod}
    (known : ∀ cgroupID ∈ identifiers (node.resolved pods), owned cgroupID) (fault : Option Nat) {cell : Cell}
    (outside : ¬ cell.Of ns owned) : (node.mapPods resource ns pods fault).2.cell cell = node.cell cell := by
  have remapped := Remapped.mapPods node resource ns pods fault
  have books := node.mapPods_book resource ns pods fault
  have others := taken_owned known fault
  cases cell with
  | limit other nsKey => exact congrFun (remapped.nsLimit other) nsKey
  | lease other nsKey => exact congrFun (remapped.nsCounter other) nsKey
  | counter other cgroupID => exact congrFun (remapped.cgroupCounter other) cgroupID
  | mapping other cgroupID =>
    have mapped := congrArg (fun book : Book => book.cgroup other cgroupID) books
    simp only [Book.sync_cgroup] at mapped
    refine mapped.trans (if_neg ?_)
    rintro ⟨_, inside⟩
    exact outside (others cgroupID inside)
  | tracked other =>
    have tracking := congrArg (·.nsCgroups other) books
    simp only [Book.sync_nsCgroups] at tracking
    refine tracking.trans ?_
    split
    · exact Function.update_of_ne outside _ _
    · rfl
  | path cgroupID =>
    have paths := congrArg (·.cgroupPaths cgroupID) books
    exact paths.trans (Book.sync_paths _ _ _ fun inside => outside (others cgroupID inside))
  | name nsKey =>
    have names := congrArg (·.nsNameByKey nsKey) books
    simp only [Book.sync_named] at names
    exact names.trans (BpfMap.update_of_ne _ _ _ _ outside)
  | answers => exact node.mapPods_resolve resource ns pods fault

theorem entered_paths_same (resource : Resource) {one two : Book} (cInfos : List CgroupInfo) {cgroupID : UInt64}
    (before : one.cgroupPaths cgroupID = two.cgroupPaths cgroupID) :
    (cInfos.foldl (Book.enter resource ns) one).cgroupPaths cgroupID =
      (cInfos.foldl (Book.enter resource ns) two).cgroupPaths cgroupID := by
  induction cInfos generalizing one two with
  | nil => exact before
  | cons cInfo rest ih =>
    apply ih
    by_cases here : cgroupID = cInfo.cgroupID
    · simp [Book.enter, here]
    · simpa [Book.enter, BpfMap.update_of_ne _ _ _ _ here] using before

theorem mapResolved_answer (resource : Resource) (nsKey : UInt64) (cInfos : List CgroupInfo) (fault : Option Nat)
    (known : Finset UInt64) (one two : Node) :
    (Node.mapResolved resource nsKey cInfos fault known one).1 = (Node.mapResolved resource nsKey cInfos fault known two).1 := by
  induction cInfos generalizing fault known one two with
  | nil => rfl
  | cons cInfo rest ih =>
    simp only [Node.mapResolved]
    split
    · rfl
    · exact ih _ _ _ _

theorem mapPods_answer (resource : Resource) (pods : List Pod) (fault : Option Nat) {one two : Node}
    (same : one.resolve = two.resolve) : (one.mapPods resource ns pods fault).1 = (two.mapPods resource ns pods fault).1 := by
  have resolved : one.resolved pods = two.resolved pods := by
    unfold Node.resolved
    rw [same]
  have answer := mapResolved_answer resource (namespaceKey ns) (two.resolved pods) fault ∅
    { one with nsNameByKey := one.nsNameByKey.update (namespaceKey ns) ns }
    { two with nsNameByKey := two.nsNameByKey.update (namespaceKey ns) ns }
  simp only [Node.mapPods, resolved]
  revert answer
  generalize Node.mapResolved resource (namespaceKey ns) (two.resolved pods) fault ∅ _ = first
  generalize Node.mapResolved resource (namespaceKey ns) (two.resolved pods) fault ∅ _ = second
  obtain ⟨answered, _⟩ := first
  obtain ⟨again, _⟩ := second
  rintro rfl
  cases answered <;> rfl

theorem mapPods_same (resource : Resource) (pods : List Pod) (fault : Option Nat) {one two : Node}
    (resolve : one.resolve = two.resolve) (agree : Agree Node.cell (Cell.Of ns owned) one two) :
    Agree Node.cell (Cell.Of ns owned) (one.mapPods resource ns pods fault).2 (two.mapPods resource ns pods fault).2 := by
  have first := Remapped.mapPods one resource ns pods fault
  have second := Remapped.mapPods two resource ns pods fault
  have resolved : one.resolved pods = two.resolved pods := by
    unfold Node.resolved
    rw [resolve]
  have booksOne := one.mapPods_book resource ns pods fault
  have booksTwo := two.mapPods_book resource ns pods fault
  rw [← resolved] at booksTwo
  intro cell inside
  have before := agree cell inside
  cases cell with
  | limit other nsKey =>
    exact (congrFun (first.nsLimit other) nsKey).trans (before.trans (congrFun (second.nsLimit other) nsKey).symm)
  | lease other nsKey =>
    exact (congrFun (first.nsCounter other) nsKey).trans (before.trans (congrFun (second.nsCounter other) nsKey).symm)
  | counter other cgroupID =>
    exact (congrFun (first.cgroupCounter other) cgroupID).trans
      (before.trans (congrFun (second.cgroupCounter other) cgroupID).symm)
  | mapping other cgroupID =>
    change (Node.book _).cgroup other cgroupID = (Node.book _).cgroup other cgroupID
    rw [booksOne, booksTwo, Book.sync_cgroup, Book.sync_cgroup]
    split
    · rfl
    · exact before
  | tracked other =>
    obtain rfl : other = ns := inside
    change (Node.book _).nsCgroups other = (Node.book _).nsCgroups other
    rw [booksOne, booksTwo, Book.sync_nsCgroups, Book.sync_nsCgroups]
    split
    · rw [Function.update_self, Function.update_self]
    · exact before
  | path cgroupID =>
    change (Node.book _).cgroupPaths cgroupID = (Node.book _).cgroupPaths cgroupID
    rw [booksOne, booksTwo]
    have entered := @entered_paths_same ns resource (one.book.named ns) (two.book.named ns)
      (Node.taken (one.resolved pods) fault) cgroupID before
    unfold Book.sync
    dsimp only
    split <;> exact entered
  | name nsKey =>
    obtain rfl : nsKey = namespaceKey ns := inside
    change (Node.book _).nsNameByKey _ = (Node.book _).nsNameByKey _
    rw [booksOne, booksTwo, Book.sync_named, Book.sync_named, BpfMap.update_self, BpfMap.update_self]
  | answers => exact absurd inside id

theorem removeCgroups_frame (node : Node) (fails : Nat → Bool) (known : ∀ cgroupID ∈ (node.nsCgroups ns).getD ∅, owned cgroupID) {cell : Cell}
    (outside : ¬ cell.Of ns owned) : (node.removeCgroups ns fails).cell cell = node.cell cell := by
  have books := node.removeCgroups_book ns fails
  cases cell with
  | limit other nsKey | lease other nsKey => simp only [Node.cell, Node.removeCgroups_maps, ResourceMaps.deleteCgroupMappings]
  | counter other cgroupID | mapping other cgroupID =>
    simp only [Node.cell, Node.removeCgroups_maps, ResourceMaps.deleteCgroupMappings]
    exact if_neg fun inside => outside (known cgroupID inside.1)
  | tracked other =>
    have tracking := congrArg (·.nsCgroups other) books
    exact tracking.trans (Function.update_of_ne outside _ _)
  | path cgroupID =>
    have paths := congrArg (·.cgroupPaths cgroupID) books
    exact paths.trans (if_neg fun inside => outside (known cgroupID inside))
  | name nsKey =>
    have names := congrArg (·.nsNameByKey nsKey) books
    exact names.trans (BpfMap.delete_of_ne _ _ _ outside)
  | answers => exact node.removeCgroups_resolve ns fails

theorem removeCgroups_same {one two : Node} (fails : Nat → Bool) (agree : Agree Node.cell (Cell.Of ns owned) one two) :
    Agree Node.cell (Cell.Of ns owned) (one.removeCgroups ns fails) (two.removeCgroups ns fails) := by
  have tracked : one.nsCgroups ns = two.nsCgroups ns := agree (.tracked ns) rfl
  have booksOne := one.removeCgroups_book ns fails
  have booksTwo := two.removeCgroups_book ns fails
  intro cell inside
  have before := agree cell inside
  cases cell with
  | limit other nsKey | lease other nsKey =>
    simpa only [Node.cell, Node.removeCgroups_maps, ResourceMaps.deleteCgroupMappings] using before
  | counter other cgroupID | mapping other cgroupID =>
    simp only [Node.cell, Node.removeCgroups_maps, ResourceMaps.deleteCgroupMappings, tracked]
    split
    · rfl
    · exact before
  | tracked other =>
    obtain rfl : other = ns := inside
    have gone (book : Book) (stays : Resource → UInt64 → Bool) : (book.remove other stays).nsCgroups other = none := Function.update_self ..
    exact (congrArg (·.nsCgroups other) booksOne).trans
      ((gone one.book _).trans ((gone two.book _).symm.trans (congrArg (·.nsCgroups other) booksTwo).symm))
  | path cgroupID =>
    have paths (node : Node) : (node.removeCgroups ns fails).cgroupPaths cgroupID =
        if cgroupID ∈ (node.nsCgroups ns).getD ∅ then none else node.cgroupPaths cgroupID :=
      congrArg (·.cgroupPaths cgroupID) (node.removeCgroups_book ns fails)
    simp only [Node.cell, paths, tracked]
    split
    · rfl
    · exact before
  | name nsKey =>
    obtain rfl : nsKey = namespaceKey ns := inside
    have gone (book : Book) (stays : Resource → UInt64 → Bool) : (book.remove ns stays).nsNameByKey (namespaceKey ns) = none := BpfMap.delete_self ..
    exact (congrArg (·.nsNameByKey (namespaceKey ns)) booksOne).trans
      ((gone one.book _).trans ((gone two.book _).symm.trans (congrArg (·.nsNameByKey (namespaceKey ns)) booksTwo).symm))
  | answers => exact absurd inside id

end node

/-- A cell of the own node, or the cluster without that node. -/
def Cluster.place (node : String) (world : Cluster) : (place : Option Cell) → place.elim Cluster Cell.Content
  | some cell => (world.nodes node).cell cell
  | none => world.editNode node .empty

theorem Cluster.place_ext {node : String} {one two : Cluster} (same : ∀ place, one.place node place = two.place node place) :
    one = two := by
  have whole (world : Cluster) : (world.editNode node .empty).editNode node (world.nodes node) = world := by
    rw [editNode_editNode]
    unfold editNode
    rw [Function.update_eq_self]
  have elsewhere : one.editNode node .empty = two.editNode node .empty := same none
  have nodes : one.nodes node = two.nodes node := Node.cell_ext fun cell => same (some cell)
  rw [← whole one, ← whole two, elsewhere, nodes]

section requests
variable {s : Syncer} {ns : String} {pods : List Pod} {owned : UInt64 → Prop}

def Cell.Written (ns : String) (owned : UInt64 → Prop) (place : Option Cell) : Prop :=
  ∃ cell ∈ place, cell.Of ns owned

/-- What is not its own an operation reads of the resolver and of the API server only. -/
def Cell.Seen (ns : String) (owned : UInt64 → Prop) (place : Option Cell) : Prop :=
  Cell.Written ns owned place ∨ place = some .answers ∨ place = none

/-- The state in which an operation on a namespace is about its own cells only. -/
structure Expects (s : Syncer) (ns : String) (pods : List Pod) (owned : UInt64 → Prop) (world : Cluster) : Prop where
  listed : world.pods ns = pods
  resolved : ∀ cgroupID ∈ identifiers ((world.nodes s.nodeID).resolved pods), owned cgroupID
  tracked : ∀ cgroupID ∈ ((world.nodes s.nodeID).nsCgroups ns).getD ∅, owned cgroupID

abbrev Stays {α : Type} (s : Syncer) (ns : String) (pods : List Pod) (owned : UInt64 → Prop) (goal : α → Prop)
    (act : Cluster → α × Cluster) : Prop :=
  Confined (Cluster.place s.nodeID) (Cell.Seen ns owned) (Cell.Written ns owned) (Expects s ns pods owned) goal act

theorem resolved_congr {one two : Node} (same : one.resolve = two.resolve) (pods : List Pod) :
    one.resolved pods = two.resolved pods := by
  unfold Node.resolved
  rw [same]

theorem Expects.stable {world later : Cluster} (agree : Agree (Cluster.place s.nodeID) (Cell.Seen ns owned) world later)
    (expected : Expects s ns pods owned world) : Expects s ns pods owned later := by
  have elsewhere : world.editNode s.nodeID .empty = later.editNode s.nodeID .empty := agree none (.inr (.inr rfl))
  have answers : (world.nodes s.nodeID).resolve = (later.nodes s.nodeID).resolve := agree (some .answers) (.inr (.inl rfl))
  have tracked : (world.nodes s.nodeID).nsCgroups ns = (later.nodes s.nodeID).nsCgroups ns :=
    agree (some (.tracked ns)) (.inl ⟨_, rfl, rfl⟩)
  refine ⟨?_, ?_, ?_⟩
  · rw [← expected.listed]
    exact congrFun (congrArg Cluster.pods elsewhere.symm) ns
  · rw [resolved_congr answers.symm]
    exact expected.resolved
  · rw [← tracked]
    exact expected.tracked

/-- An edit of the own node, from what it makes of the cells. -/
theorem stays_edited {α : Type} {goal : α → Prop} {value : Node → α} {edit : Node → Node}
    (frame : ∀ world, Expects s ns pods owned world → ∀ cell : Cell, ¬ cell.Of ns owned →
      (edit (world.nodes s.nodeID)).cell cell = (world.nodes s.nodeID).cell cell)
    (kept : ∀ world, Expects s ns pods owned world → goal (value (world.nodes s.nodeID)) ∧
      ∀ cgroupID ∈ ((edit (world.nodes s.nodeID)).nsCgroups ns).getD ∅, owned cgroupID)
    (same : ∀ one two : Node, one.resolve = two.resolve → Agree Node.cell (Cell.Of ns owned) one two →
      value one = value two ∧ Agree Node.cell (Cell.Of ns owned) (edit one) (edit two)) :
    Stays s ns pods owned goal fun world =>
      (value (world.nodes s.nodeID), world.editNode s.nodeID (edit (world.nodes s.nodeID))) := by
  have framed (world : Cluster) (expected : Expects s ns pods owned world) (place : Option Cell) (outside : ¬ Cell.Written ns owned place) :
      (world.editNode s.nodeID (edit (world.nodes s.nodeID))).place s.nodeID place = world.place s.nodeID place := by
    cases place with
    | none => exact Cluster.editNode_editNode ..
    | some cell =>
      have own := frame world expected cell fun inside => outside ⟨cell, rfl, inside⟩
      simp only [Cluster.place, Cluster.editNode_self]
      exact own
  refine ⟨framed, ?_, ?_⟩
  · intro world expected
    obtain ⟨known, tracked⟩ := kept world expected
    have resolve : (edit (world.nodes s.nodeID)).resolve = (world.nodes s.nodeID).resolve := frame world expected .answers id
    refine ⟨⟨expected.listed, ?_, ?_⟩, known⟩
    · rw [Cluster.editNode_self, resolved_congr resolve]
      exact expected.resolved
    · rw [Cluster.editNode_self]
      exact tracked
  · intro one two expectedOne expectedTwo agree
    have answers : (one.nodes s.nodeID).resolve = (two.nodes s.nodeID).resolve := agree (some .answers) (.inr (.inl rfl))
    obtain ⟨replied, own⟩ := same _ _ answers fun cell inside => agree (some cell) (.inl ⟨cell, rfl, inside⟩)
    refine ⟨replied, ?_⟩
    rintro place (⟨cell, rfl, inside⟩ | shared)
    · simp only [Cluster.place, Cluster.editNode_self]
      exact own cell inside
    · have outside : ¬ Cell.Written ns owned place := by
        rintro ⟨cell, rfl, inside⟩
        rcases shared with same | impossible
        · rw [Option.some.inj same] at inside
          exact inside
        · cases impossible
      rw [framed one expectedOne place outside, framed two expectedTwo place outside]
      exact agree place (.inr shared)

theorem stays_edit {α : Type} {goal : α → Prop} {value : α} (known : goal value) (resource : Resource)
    {change : ResourceMaps → ResourceMaps} (about : About (namespaceKey ns) change) :
    Stays s ns pods owned goal fun world =>
      (value, world.editNode s.nodeID ((world.nodes s.nodeID).edit resource change)) := by
  refine @stays_edited s ns pods owned α goal (fun _ => value) (·.edit resource change) ?_ ?_ ?_
  · intro world _ cell outside
    exact about.frame resource _ outside
  · intro world expected
    exact ⟨known, expected.tracked⟩
  · intro one two _ agree
    exact ⟨rfl, about.same resource agree⟩

/-- A write that may fail. -/
theorem stays_write {α : Type} {goal : α → Prop} {done failed : α} (known : goal done ∧ goal failed) (fault : Option Nat)
    (resource : Resource) {change : ResourceMaps → ResourceMaps} (about : About (namespaceKey ns) change) :
    Stays s ns pods owned goal fun world =>
      if fault.isSome then (failed, world)
      else (done, world.editNode s.nodeID ((world.nodes s.nodeID).edit resource change)) := by
  cases fault with
  | some fault => exact .pure known.2
  | none => exact stays_edit known.1 resource about

theorem about_updateNsLimit (nsKey : UInt64) (limit : Int64) :
    About nsKey fun maps => maps.updateNsLimit nsKey limit := by
  refine ⟨fun _ => rfl, fun _ => rfl, ?_, ?_⟩
  · intro maps other different
    exact ⟨BpfMap.update_of_ne _ _ _ _ different, rfl⟩
  · intro one two _ lease
    exact ⟨(BpfMap.update_self ..).trans (BpfMap.update_self ..).symm, lease⟩

theorem about_updateNsCounter (nsKey : UInt64) (lease : CpuLease) :
    About nsKey fun maps => maps.updateNsCounter nsKey lease := by
  refine ⟨fun _ => rfl, fun _ => rfl, ?_, ?_⟩
  · intro maps other different
    exact ⟨rfl, BpfMap.update_of_ne _ _ _ _ different⟩
  · intro one two limit _
    exact ⟨limit, (BpfMap.update_self ..).trans (BpfMap.update_self ..).symm⟩

theorem about_deleteNsLimit (nsKey : UInt64) : About nsKey fun maps => maps.deleteNsLimit nsKey := by
  refine ⟨fun _ => rfl, fun _ => rfl, ?_, ?_⟩
  · intro maps other different
    exact ⟨BpfMap.delete_of_ne _ _ _ different, rfl⟩
  · intro one two _ lease
    exact ⟨(BpfMap.delete_self ..).trans (BpfMap.delete_self ..).symm, lease⟩

theorem about_deleteNsCounter (nsKey : UInt64) : About nsKey fun maps => maps.deleteNsCounter nsKey := by
  refine ⟨fun _ => rfl, fun _ => rfl, ?_, ?_⟩
  · intro maps other different
    exact ⟨rfl, BpfMap.delete_of_ne _ _ _ different⟩
  · intro one two limit _
    exact ⟨limit, (BpfMap.delete_self ..).trans (BpfMap.delete_self ..).symm⟩

theorem stays_mapPods (resource : Resource) (fault : Option Nat) :
    Stays s ns pods owned (fun _ => True) fun world =>
      world.serve s (.mapPods resource ns pods) fault := by
  refine @stays_edited s ns pods owned _ _ (fun node => (node.mapPods resource ns pods fault).1)
    (fun node => (node.mapPods resource ns pods fault).2) ?_ ?_ ?_
  · intro world expected cell outside
    exact mapPods_frame _ resource expected.resolved fault outside
  · intro world expected
    refine ⟨trivial, ?_⟩
    have tracking := congrArg (·.nsCgroups ns) ((world.nodes s.nodeID).mapPods_book resource ns pods fault)
    simp only [Book.sync_nsCgroups] at tracking
    rw [show (Node.mapPods _ resource ns pods fault).2.nsCgroups ns = _ from tracking]
    split
    · rw [Function.update_self]
      exact taken_owned expected.resolved fault
    · exact expected.tracked
  · intro one two resolve agree
    exact ⟨mapPods_answer resource pods fault resolve, mapPods_same resource pods fault resolve agree⟩

theorem stays_removeCgroups (fails : Nat → Bool) : Stays s ns pods owned (fun _ => True) fun world =>
    ((), world.editNode s.nodeID ((world.nodes s.nodeID).removeCgroups ns fails)) := by
  refine @stays_edited s ns pods owned _ _ (fun _ => ()) (·.removeCgroups ns fails) ?_ ?_ ?_
  · intro world expected cell outside
    exact removeCgroups_frame _ fails expected.tracked outside
  · intro world expected
    refine ⟨trivial, ?_⟩
    have gone : ((world.nodes s.nodeID).removeCgroups ns fails).nsCgroups ns = none :=
      (congrArg (·.nsCgroups ns) ((world.nodes s.nodeID).removeCgroups_book ns fails)).trans (Function.update_self ..)
    rw [gone]
    exact fun _ impossible => absurd impossible (Finset.notMem_empty _)
  · intro one two _ agree
    exact ⟨rfl, removeCgroups_same fails agree⟩

end requests

section operations
variable {s : Syncer} {ns : String} {pods : List Pod} {owned : UInt64 → Prop}

theorem Stays.bind_action {α β : Type} (goal : α → Prop) {result : β → Prop} {outcome : Request → Option Nat}
    {action : Action α} {next : α → Action β} (first : Stays s ns pods owned goal (Action.exec s outcome action))
    (onward : ∀ value, goal value → Stays s ns pods owned result (Action.exec s outcome (next value))) :
    Stays s ns pods owned result (Action.exec s outcome (action >>= next)) := by
  have composed : Action.exec s outcome (action >>= next) = fun world =>
      Action.exec s outcome (next (Action.exec s outcome action world).1) (Action.exec s outcome action world).2 :=
    funext fun world => Action.exec_bind s outcome action next world
  rw [composed]
  exact first.bind onward

theorem Stays.bind_flow {α β : Type} {result : β → Prop} {outcome : ControllerRequest → Option Nat}
    {flow : Flow α} {next : α → Flow β} (first : Stays s ns pods owned (fun _ => True) (Flow.exec s outcome flow))
    (onward : ∀ value, Stays s ns pods owned result (Flow.exec s outcome (next value))) :
    Stays s ns pods owned result (Flow.exec s outcome (flow >>= next)) := by
  have composed : Flow.exec s outcome (flow >>= next) = fun world =>
      Flow.exec s outcome (next (Flow.exec s outcome flow world).1) (Flow.exec s outcome flow world).2 :=
    funext fun world => Flow.exec_bind s outcome flow next world
  rw [composed]
  exact first.bind fun value _ => onward value

theorem stays_lookup (outcome : Request → Option Nat) (resource : Resource) :
    Stays s ns pods owned (fun _ => True)
      (Action.exec s outcome (perform (.lookupNsCounter resource (namespaceKey ns)))) := by
  refine ⟨fun _ _ _ _ => rfl, fun _ expected => ⟨expected, trivial⟩, ?_⟩
  intro one two _ _ agree
  have lease : ((one.nodes s.nodeID).bpf.maps resource).nsCounter (namespaceKey ns) =
      ((two.nodes s.nodeID).bpf.maps resource).nsCounter (namespaceKey ns) :=
    agree (some (.lease resource (namespaceKey ns))) (.inl ⟨_, rfl, rfl⟩)
  refine ⟨?_, agree⟩
  rw [Action.exec_perform, Action.exec_perform]
  simp only [Cluster.serve, lease]

theorem stays_listPods (outcome : Request → Option Nat) :
    Stays s ns pods owned (fun answer => ∀ listed, answer = some listed → listed = pods)
      (Action.exec s outcome (perform (.listPods ns))) := by
  have answered (world : Cluster) (expected : Expects s ns pods owned world) :
      (Action.exec s outcome (perform (.listPods ns)) world).1 =
        if (outcome (.listPods ns)).isSome then none else some pods := by
    rw [Action.exec_perform]
    simp only [Cluster.serve, expected.listed]
  refine ⟨fun _ _ _ _ => rfl, ?_, ?_⟩
  · intro world expected
    refine ⟨expected, ?_⟩
    rw [answered world expected]
    intro listed found
    split at found
    · cases found
    · exact (Option.some.inj found).symm
  · intro one two expectedOne expectedTwo agree
    exact ⟨(answered one expectedOne).trans (answered two expectedTwo).symm, agree⟩

theorem stays_sync (unleased : s.leaser = none) (outcome : Request → Option Nat) (resource : Resource) (limit : Int64)
    (batchSize : Option Int64) :
    Stays s ns pods owned (fun _ => True) (Action.exec s outcome (s.sync resource ns limit batchSize)) := by
  unfold Syncer.sync Syncer.effectiveLimit Syncer.resetCounter
  rw [unleased]
  apply Stays.bind_action (fun _ => True) (.pure trivial)
  intro effective _
  apply Stays.bind_action (fun _ => True) (stays_write ⟨trivial, trivial⟩ _ resource (about_updateNsLimit _ effective))
  intro written _
  cases written with
  | false => exact .pure trivial
  | true =>
    apply Stays.bind_action (fun _ => True)
    · apply Stays.bind_action (fun _ => True) (stays_lookup outcome resource)
      intro existing _
      exact stays_write ⟨trivial, trivial⟩ _ resource (about_updateNsCounter _ _)
    · intro counted _
      cases counted with
      | false => exact .pure trivial
      | true =>
        apply Stays.bind_action _ (stays_listPods outcome)
        intro answer listed
        cases answer with
        | none => exact .pure trivial
        | some found =>
          obtain rfl := listed found rfl
          apply Stays.bind_action (fun _ => True) (stays_mapPods resource _)
          intro mapped _
          cases mapped <;> exact .pure trivial

theorem stays_removeNamespace (unleased : s.leaser = none) (outcome : ControllerRequest → Option Nat) :
    Stays s ns pods owned (fun _ => True) (Flow.exec s outcome (s.removeNamespace ns)) := by
  unfold Syncer.removeNamespace Syncer.releaseLeases
  rw [unleased]
  apply Stays.bind_flow (.pure trivial)
  intro _
  apply Stays.bind_flow (stays_write ⟨trivial, trivial⟩ _ .fd (about_deleteNsLimit _))
  intro _
  apply Stays.bind_flow (stays_write ⟨trivial, trivial⟩ _ .fd (about_deleteNsCounter _))
  intro _
  apply Stays.bind_flow (stays_write ⟨trivial, trivial⟩ _ .proc (about_deleteNsLimit _))
  intro _
  apply Stays.bind_flow (stays_write ⟨trivial, trivial⟩ _ .proc (about_deleteNsCounter _))
  intro _
  exact stays_removeCgroups _

/-- The operations of a namespace. -/
inductive Job.On (ns : String) : Job → Prop where
  | syncNamespace (limit : Int64) (batchSize : Option Int64) : Job.On ns (.syncNamespace ns limit batchSize)
  | syncProcessNamespace (limit : Int64) (batchSize : Option Int64) : Job.On ns (.syncProcessNamespace ns limit batchSize)
  | removeNamespace : Job.On ns (.removeNamespace ns)

def Job.exec (s : Syncer) (outcome : ControllerRequest → Option Nat) (job : Job) (world : Cluster) : Cluster :=
  (Flow.exec s outcome (job.body s) world).2

theorem Job.On.stays {job : Job} (on : job.On ns) (unleased : s.leaser = none) (outcome : ControllerRequest → Option Nat) :
    Stays s ns pods owned (fun _ => True) (Flow.exec s outcome (job.body s)) := by
  have lifted (resource : Resource) (limit : Int64) (batchSize : Option Int64) :
      Stays s ns pods owned (fun _ => True)
        (Flow.exec s outcome (Action.lift (s.sync resource ns limit batchSize))) := by
    rw [funext (Flow.exec_lift s outcome (s.sync resource ns limit batchSize))]
    exact stays_sync unleased _ resource limit batchSize
  cases on with
  | syncNamespace limit batchSize => exact .bind_flow (lifted .fd limit batchSize) fun _ => .pure trivial
  | syncProcessNamespace limit batchSize => exact .bind_flow (lifted .proc limit batchSize) fun _ => .pure trivial
  | removeNamespace => exact stays_removeNamespace unleased outcome

end operations

/-- No entry that belongs to the namespace has changed on the node. -/
structure Cluster.Spares (node ns : String) (before after : Cluster) : Prop where
  limit : ∀ resource, ((after.nodes node).bpf.maps resource).nsLimit (namespaceKey ns) =
    ((before.nodes node).bpf.maps resource).nsLimit (namespaceKey ns)
  lease : ∀ resource, ((after.nodes node).bpf.maps resource).nsCounter (namespaceKey ns) =
    ((before.nodes node).bpf.maps resource).nsCounter (namespaceKey ns)
  mapping : ∀ resource cgroupID, before.Owns node ns cgroupID →
    ((after.nodes node).bpf.maps resource).cgroup cgroupID = ((before.nodes node).bpf.maps resource).cgroup cgroupID
  counter : ∀ resource cgroupID, before.Owns node ns cgroupID →
    ((after.nodes node).bpf.maps resource).cgroupCounter cgroupID = ((before.nodes node).bpf.maps resource).cgroupCounter cgroupID
  tracked : (after.nodes node).nsCgroups ns = (before.nodes node).nsCgroups ns
  path : ∀ cgroupID, before.Owns node ns cgroupID → (after.nodes node).cgroupPaths cgroupID = (before.nodes node).cgroupPaths cgroupID
  name : (after.nodes node).nsNameByKey (namespaceKey ns) = (before.nodes node).nsNameByKey (namespaceKey ns)

section disjoint
variable {s : Syncer} {ns other : String} {world : Cluster}

theorem Cluster.expects (world : Cluster) (s : Syncer) (ns : String) :
    Expects s ns (world.pods ns) (world.Owns s.nodeID ns) world :=
  ⟨rfl, fun _ => .inr, fun _ => .inl⟩

/-- Namespaces with different names and keys that share no cgroup share no cell. -/
theorem Cell.Of.apart (different : ns ≠ other) (keys : namespaceKey ns ≠ namespaceKey other) {owned owned' : UInt64 → Prop}
    (disjoint : ∀ cgroupID, owned cgroupID → ¬ owned' cgroupID) {cell : Cell} (inside : cell.Of ns owned) :
    ¬ cell.Of other owned' := by
  cases cell with
  | limit _ nsKey | lease _ nsKey | name nsKey =>
    obtain rfl : nsKey = namespaceKey ns := inside
    exact keys
  | mapping _ cgroupID | counter _ cgroupID | path cgroupID => exact disjoint cgroupID inside
  | tracked name =>
    obtain rfl : name = ns := inside
    exact different
  | answers => exact id

theorem Cell.Seen.apart (different : ns ≠ other) (keys : namespaceKey ns ≠ namespaceKey other) {owned owned' : UInt64 → Prop}
    (disjoint : ∀ cgroupID, owned cgroupID → ¬ owned' cgroupID) (place : Option Cell) (read : Cell.Seen ns owned place) :
    ¬ Cell.Written other owned' place := by
  rintro ⟨cell, rfl, written⟩
  rcases read with ⟨_, same, inside⟩ | answers | impossible
  · obtain rfl := Option.some.inj same
    exact inside.apart different keys disjoint written
  · obtain rfl := Option.some.inj answers
    exact written
  · cases impossible

/-- Operations on different namespaces that share no cgroup commute, and the one on the
first spares the second; any request may fail. -/
theorem namespaces_commute (unleased : s.leaser = none) (different : ns ≠ other)
    (keys : namespaceKey ns ≠ namespaceKey other)
    (disjoint : ∀ cgroupID, world.Owns s.nodeID ns cgroupID → ¬ world.Owns s.nodeID other cgroupID) {first second : Job}
    (one : first.On ns) (two : second.On other) (outcome : ControllerRequest → Option Nat) :
    second.exec s outcome (first.exec s outcome world) = first.exec s outcome (second.exec s outcome world) ∧
      Cluster.Spares s.nodeID other world (first.exec s outcome world) := by
  have left := @Job.On.stays s ns (world.pods ns) (world.Owns s.nodeID ns) first one unleased outcome
  have right := @Job.On.stays s other (world.pods other) (world.Owns s.nodeID other) second two unleased outcome
  have away : ∀ cgroupID, world.Owns s.nodeID other cgroupID → ¬ world.Owns s.nodeID ns cgroupID :=
    fun cgroupID there here => disjoint cgroupID here there
  have apart := Cell.Seen.apart different keys disjoint
  have apart' := Cell.Seen.apart different.symm keys.symm away
  refine ⟨@Cluster.place_ext s.nodeID _ _ ?_, ?_⟩
  · exact left.commute right (fun _ => .inl) (fun _ => .inl) apart apart' (fun _ _ => Expects.stable) (fun _ _ => Expects.stable)
      (world.expects s ns) (world.expects s other)
  · have spared (cell : Cell) (there : cell.Of other (world.Owns s.nodeID other)) :
        ((first.exec s outcome world).nodes s.nodeID).cell cell = (world.nodes s.nodeID).cell cell := by
      apply left.frame world (world.expects s ns) (some cell)
      rintro ⟨_, same, inside⟩
      obtain rfl := Option.some.inj same
      exact inside.apart different keys disjoint there
    exact ⟨fun resource => spared (.limit resource _) rfl, fun resource => spared (.lease resource _) rfl,
      fun resource cgroupID => spared (.mapping resource cgroupID), fun resource cgroupID => spared (.counter resource cgroupID),
      spared (.tracked other) rfl, fun cgroupID => spared (.path cgroupID), spared (.name _) rfl⟩

/-- One namespace with a pod, another one that tracks a cgroup. -/
def twoNamespaces : Cluster :=
  { Cluster.empty [] with pods := fun ns => if ns = "team" then [⟨"pod", .running⟩] else [] }.editNode "node"
    { Node.empty with
      resolve := fun _ => some [⟨7, "path"⟩]
      nsCgroups := fun ns => if ns = "other" then some {8} else none }

theorem namespaces_commute_team :
    let s : Syncer := ⟨"node", none⟩
    let sync := Job.exec s smooth (.syncNamespace "team" 10 none)
    let remove := Job.exec s smooth (.removeNamespace "other")
    remove (sync twoNamespaces) = sync (remove twoNamespaces) ∧ Cluster.Spares "node" "other" twoNamespaces (sync twoNamespaces) := by
  intro s sync remove
  refine namespaces_commute rfl (by decide) (by decide) ?_ (.syncNamespace 10 none) .removeNamespace smooth
  have team : ((twoNamespaces.nodes "node").nsCgroups "team").getD ∅ = ∅ ∧
      identifiers ((twoNamespaces.nodes "node").resolved (twoNamespaces.pods "team")) = {7} := by decide
  have others : ((twoNamespaces.nodes "node").nsCgroups "other").getD ∅ = {8} ∧
      identifiers ((twoNamespaces.nodes "node").resolved (twoNamespaces.pods "other")) = ∅ := by decide
  intro cgroupID
  unfold Cluster.Owns
  rw [team.1, team.2, others.1, others.2]
  simp only [Finset.notMem_empty, Finset.mem_singleton, false_or, or_false]
  rintro rfl
  decide

end disjoint
end QuotaManager
