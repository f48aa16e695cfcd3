import QuotaManager.CgroupFs
import QuotaManager.Proofs.ScannerRace

/-! What one scan covers. It adopts untracked cgroups one after another, and the last
adoption of a cgroup stands. A pod directory whose own cgroup is tracked is skipped
with all that is below it. -/

namespace QuotaManager
open Enforcer

/-- A cgroup is mapped for both resources, tracked and recorded for a namespace. -/
def Node.adopt (node : Node) (adoption : String × CgroupInfo) : Node :=
  let node' := node.updateCgroupMapping .fd adoption.2.cgroupID (namespaceKey adoption.1)
  let node' := node'.updateCgroupMapping .proc adoption.2.cgroupID (namespaceKey adoption.1)
  (node'.track adoption.1 (insert adoption.2.cgroupID ((node.nsCgroups adoption.1).getD ∅))).recordPath adoption.2

/-- The directory is that of one of the pods. -/
def PodDirectory.ofPod (directory : PodDirectory) (pods : List Pod) : Bool :=
  match directory.uid with
  | none => false
  | some uid => pods.any fun pod => pod.uid = replaceAll '_' '-' uid

def PodDirectory.cgroups (directory : PodDirectory) : List CgroupInfo := directory.info.toList ++ directory.children

/-- What a scan passes on to the locked section. -/
def PodDirectory.taken (directory : PodDirectory) (pods : List Pod) (existing : Finset UInt64) : List CgroupInfo :=
  match directory.info with
  | none => []
  | some own => if own.cgroupID ∉ existing ∧ directory.ofPod pods then own :: directory.children else []

/-- The cgroups that a scan does not take to be mapped already. -/
def Node.unscanned (existing : Finset UInt64) (cInfos : List CgroupInfo) : List CgroupInfo :=
  cInfos.filter fun cInfo => cInfo.cgroupID ∉ existing

def adopted (pods : List Pod) : List PodDirectory → Finset UInt64 → List CgroupInfo
  | [], _ => []
  | directory :: rest, existing =>
    let taken := directory.taken pods existing
    Node.unscanned existing taken ++ adopted pods rest (existing ∪ identifiers taken)

/-- All adoptions of a scan, in order. -/
def adoptions (pods : String → List Pod) (tracked : String → Option (Finset UInt64)) (directories : List PodDirectory)
    (order : List String) : List (String × CgroupInfo) :=
  order.flatMap fun ns =>
    match tracked ns with
    | none => []
    | some existing => (adopted (pods ns) directories existing).map (ns, ·)

namespace Node

theorem adopt_cgroup (node : Node) (adoption : String × CgroupInfo) (resource : Resource) (cgroupID : UInt64) :
    (node.adopt adoption).book.cgroup resource cgroupID =
      if cgroupID = adoption.2.cgroupID then some (namespaceKey adoption.1) else node.book.cgroup resource cgroupID := by
  change ((node.updateCgroupMapping .fd _ _).updateCgroupMapping .proc _ _).book.cgroup resource cgroupID = _
  rw [updateCgroupMapping_cgroup, updateCgroupMapping_cgroup]
  cases resource
  · rw [if_neg (by simp)]
    simp only [true_and]
  · simp only [reduceCtorEq, true_and, false_and, ↓reduceIte]

theorem adopt_path (node : Node) (adoption : String × CgroupInfo) (cgroupID : UInt64) :
    (node.adopt adoption).cgroupPaths cgroupID =
      if cgroupID = adoption.2.cgroupID then some adoption.2.cgroupPath else node.cgroupPaths cgroupID := by
  split
  next here =>
    subst here
    exact BpfMap.update_self ..
  next elsewhere => exact BpfMap.update_of_ne _ _ _ _ elsewhere

theorem adopt_nsCgroups (node : Node) (adoption : String × CgroupInfo) : (node.adopt adoption).nsCgroups =
    Function.update node.nsCgroups adoption.1 (some (insert adoption.2.cgroupID ((node.nsCgroups adoption.1).getD ∅))) := rfl

/-- The last adoption of a cgroup stands. -/
theorem adopted_last (node : Node) (adoptions : List (String × CgroupInfo)) (cgroupID : UInt64) :
    let after := adoptions.foldl adopt node
    (∃ adoption ∈ adoptions, adoption.2.cgroupID = cgroupID ∧ after.cgroupPaths cgroupID = some adoption.2.cgroupPath ∧
        ∀ resource, after.book.cgroup resource cgroupID = some (namespaceKey adoption.1)) ∨
      (∀ adoption ∈ adoptions, adoption.2.cgroupID ≠ cgroupID) ∧ after.cgroupPaths cgroupID = node.cgroupPaths cgroupID ∧
        ∀ resource, after.book.cgroup resource cgroupID = node.book.cgroup resource cgroupID := by
  intro after
  induction adoptions generalizing node with
  | nil => exact .inr ⟨fun _ impossible => absurd impossible List.not_mem_nil, rfl, fun _ => rfl⟩
  | cons adoption rest ih =>
    rcases ih (node.adopt adoption) with ⟨last, member, same, entered⟩ | ⟨others, path, mapped⟩
    · exact .inl ⟨last, List.mem_cons_of_mem _ member, same, entered⟩
    · by_cases here : cgroupID = adoption.2.cgroupID
      · rw [adopt_path, if_pos here] at path
        refine .inl ⟨adoption, List.mem_cons_self, here.symm, path, fun resource => ?_⟩
        have entered := mapped resource
        rwa [adopt_cgroup, if_pos here] at entered
      · rw [adopt_path, if_neg here] at path
        refine .inr ⟨?_, path, fun resource => ?_⟩
        · intro other member
          rcases List.mem_cons.mp member with rfl | later
          · exact fun same => here same.symm
          · exact others other later
        · have kept := mapped resource
          rwa [adopt_cgroup, if_neg here] at kept

theorem adopted_tracked (node : Node) (adoptions : List (String × CgroupInfo)) (ns : String) (cgroupID : UInt64) :
    cgroupID ∈ ((adoptions.foldl adopt node).nsCgroups ns).getD ∅ ↔
      cgroupID ∈ (node.nsCgroups ns).getD ∅ ∨ ∃ adoption ∈ adoptions, adoption.1 = ns ∧ adoption.2.cgroupID = cgroupID := by
  induction adoptions generalizing node with
  | nil => simp
  | cons adoption rest ih =>
    rw [List.foldl_cons, ih, adopt_nsCgroups]
    by_cases here : ns = adoption.1
    · subst here
      simp only [Function.update_self, Option.getD_some, Finset.mem_insert, List.exists_mem_cons_iff, true_and]
      tauto
    · simp [Function.update_of_ne here, Ne.symm here]

theorem adopted_isSome (node : Node) (adoptions : List (String × CgroupInfo)) {ns : String}
    (tracked : (node.nsCgroups ns).isSome) : ((adoptions.foldl adopt node).nsCgroups ns).isSome := by
  induction adoptions generalizing node with
  | nil => exact tracked
  | cons adoption rest ih =>
    apply ih
    by_cases here : ns = adoption.1
    · subst here
      simp [adopt_nsCgroups]
    · rwa [adopt_nsCgroups, Function.update_of_ne here]

/-- The locked section of a scan adopts what it does not take to be there. -/
theorem mapScanned_adopts {node : Node} {ns : String} {cInfos : List CgroupInfo} {existing : Finset UInt64}
    (tracked : (node.nsCgroups ns).isSome) (distinct : (cInfos.map (·.cgroupID)).Nodup) :
    mapScanned ns cInfos (fails none) existing node = (true, ((unscanned existing cInfos).map (ns, ·)).foldl adopt node) := by
  induction cInfos generalizing node existing with
  | nil => rfl
  | cons cInfo rest ih =>
    obtain ⟨alone, others⟩ := List.nodup_cons.mp distinct
    by_cases inside : cInfo.cgroupID ∈ existing
    · have skipped : unscanned existing (cInfo :: rest) = unscanned existing rest :=
        List.filter_cons_of_neg (by simpa using inside)
      rw [mapScanned, if_pos inside, skipped]
      exact ih tracked others
    · have later : unscanned (insert cInfo.cgroupID existing) rest = unscanned existing rest := by
        apply List.filter_congr
        intro other member
        have different : other.cgroupID ≠ cInfo.cgroupID := by
          intro same
          exact alone (List.mem_map.mpr ⟨other, member, same⟩)
        simp [different]
      have first : unscanned existing (cInfo :: rest) = cInfo :: unscanned existing rest :=
        List.filter_cons_of_pos (by simpa using inside)
      obtain ⟨known, found⟩ := Option.isSome_iff_exists.mp tracked
      have still : ((node.adopt (ns, cInfo)).nsCgroups ns).isSome := by simp [adopt_nsCgroups]
      have step : mapScanned ns (cInfo :: rest) (fails none) existing node =
          mapScanned ns rest (fails none) (insert cInfo.cgroupID existing) (node.adopt (ns, cInfo)) := by
        unfold adopt
        rw [mapScanned, if_neg inside]
        simp only [fails_none, Bool.false_eq_true, ↓reduceIte]
        split
        next missing =>
          cases found.symm.trans missing
        next now present =>
          obtain rfl := Option.some.inj (found.symm.trans present)
          rw [found, Option.getD_some]
          rfl
      rw [step, ih still others, later, first]
      rfl

theorem scanned_taken (cInfos : List CgroupInfo) (existing : Finset UInt64) :
    scanned cInfos (fails none) existing = existing ∪ identifiers cInfos := by
  induction cInfos generalizing existing with
  | nil => simp [scanned, identifiers]
  | cons cInfo rest ih =>
    have names : identifiers (cInfo :: rest) = insert cInfo.cgroupID (identifiers rest) := by simp [identifiers]
    rw [scanned, names]
    by_cases inside : cInfo.cgroupID ∈ existing
    · rw [if_pos (.inl inside), Finset.union_insert, Finset.insert_eq_of_mem (Finset.mem_union_left _ inside)]
      exact ih existing
    · rw [if_neg (by simp [inside]), Finset.union_insert, ← Finset.insert_union]
      exact ih _

end Node

section run
variable {s : Syncer} {world : Cluster} {ns : String} {pods : List Pod} {directory : PodDirectory} {directories : List PodDirectory}
  {existing : Finset UInt64} {cInfo : CgroupInfo}

def PodDirectory.ids (directory : PodDirectory) : List UInt64 := directory.cgroups.map (·.cgroupID)

theorem PodDirectory.taken_eq {own : CgroupInfo} (read : directory.info = some own) : directory.taken pods existing =
    if own.cgroupID ∉ existing ∧ directory.ofPod pods then own :: directory.children else [] := by
  simp only [taken, read]

theorem PodDirectory.mem_taken : cInfo ∈ directory.taken pods existing ↔
    ∃ own, directory.info = some own ∧ own.cgroupID ∉ existing ∧ directory.ofPod pods = true ∧
      (cInfo = own ∨ cInfo ∈ directory.children) := by
  cases read : directory.info with
  | none => simp [taken, read]
  | some own =>
    rw [taken_eq read]
    by_cases new : own.cgroupID ∉ existing ∧ directory.ofPod pods = true
    · simp [new]
    · rw [if_neg new]
      constructor
      · intro impossible
        cases impossible
      · rintro ⟨own', same, outside, matched, -⟩
        obtain rfl := Option.some.inj same
        exact absurd ⟨outside, matched⟩ new

theorem PodDirectory.taken_sublist : (directory.taken pods existing).Sublist directory.cgroups := by
  cases read : directory.info with
  | none => simp [taken, read]
  | some own =>
    rw [taken_eq read, cgroups, read]
    split
    · exact List.Sublist.refl _
    · exact List.nil_sublist _

/-- One directory's part in a scan. -/
theorem scanDirectory_adopts (tracked : ((world.nodes s.nodeID).nsCgroups ns).isSome) (distinct : directory.ids.Nodup) :
    Flow.exec s smooth (Syncer.scanDirectory ns existing directory) world =
      (some (existing ∪ identifiers (directory.taken (world.pods ns) existing)),
        world.editNode s.nodeID (((Node.unscanned existing (directory.taken (world.pods ns) existing)).map (ns, ·)).foldl
          Node.adopt (world.nodes s.nodeID))) := by
  have idle (untaken : directory.taken (world.pods ns) existing = []) : (some existing, world) =
      (some (existing ∪ identifiers (directory.taken (world.pods ns) existing)),
        world.editNode s.nodeID (((Node.unscanned existing (directory.taken (world.pods ns) existing)).map (ns, ·)).foldl
          Node.adopt (world.nodes s.nodeID))) := by
    rw [untaken]
    simp [identifiers, Node.unscanned, Cluster.editNode]
  unfold Syncer.scanDirectory
  cases read : directory.info with
  | none => exact idle (by simp only [PodDirectory.taken, read])
  | some own =>
    have taken := @PodDirectory.taken_eq (world.pods ns) directory existing own read
    by_cases inside : own.cgroupID ∈ existing
    · simp only [if_pos inside]
      exact idle (taken.trans (if_neg fun new => new.1 inside))
    · simp only [if_neg inside]
      cases named : directory.uid with
      | none => exact idle (taken.trans (if_neg (by simp [PodDirectory.ofPod, named])))
      | some uid =>
        have matched : directory.ofPod (world.pods ns) = (world.pods ns).any fun pod => pod.uid = replaceAll '_' '-' uid := by
          simp only [PodDirectory.ofPod, named]
        dsimp only
        rw [Flow.exec_bind, Flow.exec_issue]
        change Flow.exec s smooth (if (world.pods ns).any fun pod => pod.uid = replaceAll '_' '-' uid then
          issue (.mapScanned ns existing (own :: directory.children)) else pure (some existing)) world = _
        rw [← matched]
        by_cases pod : directory.ofPod (world.pods ns) = true
        · have whole : directory.taken (world.pods ns) existing = own :: directory.children := taken.trans (if_pos ⟨inside, pod⟩)
          have nodup : ((own :: directory.children).map (·.cgroupID)).Nodup := by
            have cgroups : directory.cgroups = own :: directory.children := by rw [PodDirectory.cgroups, read]; rfl
            rwa [PodDirectory.ids, cgroups] at distinct
          rw [whole, if_pos pod, Flow.exec_issue]
          simp only [Cluster.control, smooth, Node.mapScanned_adopts tracked nodup, Node.scanned_taken, ↓reduceIte]
        · have untaken : directory.taken (world.pods ns) existing = [] := taken.trans (if_neg fun new => pod new.2)
          rw [if_neg pod]
          exact idle untaken

theorem distinct_each (distinct : (directories.flatMap PodDirectory.ids).Nodup) : ∀ directory ∈ directories, directory.ids.Nodup :=
  (List.nodup_flatMap.mp distinct).1

/-- A namespace's part in a scan. -/
theorem scanDirectories_adopts (tracked : ((world.nodes s.nodeID).nsCgroups ns).isSome)
    (distinct : ∀ directory ∈ directories, directory.ids.Nodup) :
    Flow.exec s smooth (Syncer.scanDirectories ns directories existing) world =
      (true, world.editNode s.nodeID
        (((adopted (world.pods ns) directories existing).map (ns, ·)).foldl Node.adopt (world.nodes s.nodeID))) := by
  induction directories generalizing world existing with
  | nil => simp [Syncer.scanDirectories, adopted, Flow.exec, Cluster.editNode]
  | cons directory rest ih =>
    have section_eq := @scanDirectory_adopts s world ns directory existing tracked (distinct directory List.mem_cons_self)
    have still := Node.adopted_isSome (world.nodes s.nodeID)
      ((Node.unscanned existing (directory.taken (world.pods ns) existing)).map (ns, ·)) tracked
    rw [Syncer.scanDirectories, Flow.exec_bind, section_eq]
    dsimp only
    rw [ih (by rwa [Cluster.editNode_self]) fun other member => distinct other (List.mem_cons_of_mem _ member),
      Cluster.editNode_self, Cluster.editNode_editNode, ← List.foldl_append, ← List.map_append]
    rfl

theorem scanNamespaces_adopts {tracked : String → Option (Finset UInt64)} {order : List String}
    (known : ∀ ns, (tracked ns).isSome → ((world.nodes s.nodeID).nsCgroups ns).isSome)
    (distinct : ∀ directory ∈ directories, directory.ids.Nodup) :
    Flow.exec s smooth (Syncer.scanNamespaces tracked (order.map fun ns => (ns, directories))) world =
      ((), world.editNode s.nodeID
        ((adoptions world.pods tracked directories order).foldl Node.adopt (world.nodes s.nodeID))) := by
  induction order generalizing world with
  | nil => simp [Syncer.scanNamespaces, adoptions, Flow.exec, Cluster.editNode]
  | cons ns order ih =>
    rw [List.map_cons, Syncer.scanNamespaces]
    cases snapshot : tracked ns with
    | none =>
      have idle : adoptions world.pods tracked directories (ns :: order) = adoptions world.pods tracked directories order := by
        simp [adoptions, snapshot]
      dsimp only
      rw [ih known, idle]
    | some existing =>
      have first := @scanDirectories_adopts s world ns directories existing (known ns (by rw [snapshot]; rfl)) distinct
      have still (other : String) (listed : (tracked other).isSome) := Node.adopted_isSome (world.nodes s.nodeID)
        ((adopted (world.pods ns) directories existing).map (ns, ·)) (known other listed)
      have all : adoptions world.pods tracked directories (ns :: order) =
          (adopted (world.pods ns) directories existing).map (ns, ·) ++ adoptions world.pods tracked directories order := by
        simp [adoptions, snapshot]
      dsimp only
      rw [Flow.exec_bind, first]
      dsimp only
      rw [ih (by simpa only [Cluster.editNode_self] using still), Cluster.editNode_self, Cluster.editNode_editNode,
        ← List.foldl_append, all]
      rfl

/-- A scan changes the own node by its adoptions. -/
theorem scanCgroups_adopts (s : Syncer) (world : Cluster) (order : List String)
    (distinct : ∀ directory ∈ directories, directory.ids.Nodup) :
    Flow.exec s smooth (Syncer.scanCgroups (order.map fun ns => (ns, directories))) world =
      ((), world.editNode s.nodeID ((adoptions world.pods (world.nodes s.nodeID).nsCgroups directories order).foldl
        Node.adopt (world.nodes s.nodeID))) := by
  rw [Syncer.scanCgroups, Flow.exec_bind, Flow.exec_issue]
  exact scanNamespaces_adopts (fun _ tracked => tracked) distinct

/-- What earlier directories added does not matter to one with other cgroups. -/
theorem mem_adopted (distinct : (directories.flatMap PodDirectory.ids).Nodup) : cInfo ∈ adopted pods directories existing ↔
    ∃ directory ∈ directories, cInfo ∈ directory.taken pods existing ∧ cInfo.cgroupID ∉ existing := by
  induction directories generalizing existing with
  | nil => simp [adopted]
  | cons directory rest ih =>
    rw [List.flatMap_cons] at distinct
    obtain ⟨-, others, apart⟩ := List.nodup_append'.mp distinct
    have outside {other : PodDirectory} (member : other ∈ rest) {found : CgroupInfo} (inside : found ∈ other.cgroups) :
        found.cgroupID ∉ identifiers (directory.taken pods existing) := by
      intro again
      obtain ⟨first, taken, same⟩ := List.mem_map.mp (List.mem_toFinset.mp again)
      apply apart (List.mem_map_of_mem (f := (·.cgroupID)) (PodDirectory.taken_sublist.subset taken))
      rw [same]
      exact List.mem_flatMap.mpr ⟨other, member, List.mem_map_of_mem inside⟩
    have same {other : PodDirectory} (member : other ∈ rest) :
        other.taken pods (existing ∪ identifiers (directory.taken pods existing)) = other.taken pods existing := by
      cases read : other.info with
      | none => simp only [PodDirectory.taken, read]
      | some own =>
        have own_inside : own ∈ other.cgroups := by
          rw [PodDirectory.cgroups, read]
          exact List.mem_cons_self
        have own_outside := outside member own_inside
        rw [PodDirectory.taken_eq read, PodDirectory.taken_eq read]
        simp only [Finset.mem_union, own_outside, or_false]
    rw [adopted, List.mem_append, ih others, List.exists_mem_cons_iff]
    apply or_congr
    · rw [Node.unscanned, List.mem_filter, decide_eq_true_iff]
    · apply exists_congr
      intro other
      apply and_congr_right
      intro member
      rw [same member]
      apply and_congr_right
      intro taken
      have := outside member (PodDirectory.taken_sublist.subset taken)
      simp [this]

end run
theorem Listing.children_sublist (listing : Listing) (path : String) :
    ((listing.children path).map (·.cgroupID)).Sublist listing.inodes := by
  induction listing with
  | done | failed => exact List.nil_sublist _
  | file name rest ih => exact ih
  | directory name inode content rest _ ih =>
    have later := ih.trans (List.sublist_append_right content.inodes rest.inodes)
    cases inode with
    | none => exact later
    | some inode => exact later.cons_cons inode

theorem Listing.podCgroupDirs_sublist (listing : Listing) (root : String) :
    ((listing.podCgroupDirs root).flatMap fun directory => directory.read.ids).Sublist listing.inodes := by
  induction listing generalizing root with
  | done | failed => exact List.nil_sublist _
  | file name rest ih => exact ih root
  | directory name inode content rest inside later =>
    rw [podCgroupDirs, inodes, List.flatMap_append, ← List.append_assoc]
    apply List.Sublist.append _ (later root)
    split
    · have ids : (Directory.read ⟨Paths.join [root, name.text], inode, content⟩).ids =
          inode.toList ++ (content.children (Paths.join [root, name.text])).map (·.cgroupID) := by
        cases inode <;> rfl
      rw [List.flatMap_singleton, ids]
      exact (List.Sublist.refl _).append (content.children_sublist _)
    · split
      · exact (inside _).trans (List.sublist_append_right _ _)
      · exact List.nil_sublist _

theorem Hierarchy.podDirectories_distinct (hierarchy : Hierarchy) : (hierarchy.podDirectories.flatMap PodDirectory.ids).Nodup := by
  rw [podDirectories, List.flatMap_map, Listing.podDirs]
  split
  · exact hierarchy.distinct.sublist (hierarchy.tree.podCgroupDirs_sublist kubepods)
  · exact List.nodup_nil

/-- A pod directory that can be read, of a pod of a tracked namespace. -/
structure PodDirectory.Of (directory : PodDirectory) (s : Syncer) (world : Cluster) (ns : String) (own : CgroupInfo) : Prop where
  tracked : ((world.nodes s.nodeID).nsCgroups ns).isSome
  read : directory.info = some own
  pod : ∃ uid, directory.uid = some uid ∧ ∃ pod ∈ world.pods ns, pod.uid = replaceAll '_' '-' uid

/-- The cgroup's entries are those of the namespace. -/
structure Node.Enters (node : Node) (ns : String) (cInfo : CgroupInfo) : Prop where
  mapped : ∀ resource, (node.bpf.maps resource).cgroup cInfo.cgroupID = some (namespaceKey ns)
  path : node.cgroupPaths cInfo.cgroupID = some cInfo.cgroupPath

def Node.known (node : Node) (ns : String) : Finset UInt64 := (node.nsCgroups ns).getD ∅

/-- All cgroups of the pod directories of tracked namespaces are mapped and recorded. -/
def Covered (s : Syncer) (world : Cluster) (directories : List PodDirectory) (later : Node) : Prop :=
  ∀ ns, ∀ directory ∈ directories, ∀ own, directory.Of s world ns own → ∀ cInfo, cInfo = own ∨ cInfo ∈ directory.children →
    cInfo.cgroupID ∈ later.known ns ∧ later.Enters ns cInfo

/-- What a scan needs to find. A directory whose own cgroup is tracked is skipped, so what
is below it has to be tracked as well; several namespaces that have the pod need one key;
and what all of them track is left as it is. -/
structure Coverable (s : Syncer) (world : Cluster) (directories : List PodDirectory) : Prop where
  skipped : ∀ ns, ∀ directory ∈ directories, ∀ own, directory.Of s world ns own →
    own.cgroupID ∈ (world.nodes s.nodeID).known ns → ∀ child ∈ directory.children, child.cgroupID ∈ (world.nodes s.nodeID).known ns
  agree : ∀ ns other, ∀ directory ∈ directories, ∀ own, directory.Of s world ns own → directory.Of s world other own →
    namespaceKey ns = namespaceKey other
  left : ∀ ns, ∀ directory ∈ directories, ∀ own, directory.Of s world ns own → ∀ cInfo, cInfo = own ∨ cInfo ∈ directory.children →
    (∀ other, directory.Of s world other own → cInfo.cgroupID ∈ (world.nodes s.nodeID).known other) →
    (world.nodes s.nodeID).Enters ns cInfo

section coverage
variable {s : Syncer} {world : Cluster} {directories : List PodDirectory} {order : List String}

theorem PodDirectory.ofPod_iff {directory : PodDirectory} {pods : List Pod} : directory.ofPod pods = true ↔
    ∃ uid, directory.uid = some uid ∧ ∃ pod ∈ pods, pod.uid = replaceAll '_' '-' uid := by
  unfold ofPod
  cases directory.uid with
  | none => simp
  | some uid => simp

/-- A cgroup belongs to one of the directories. -/
theorem same_cgroup (distinct : (directories.flatMap PodDirectory.ids).Nodup) {one two : PodDirectory}
    (first : one ∈ directories) (second : two ∈ directories) {left right : CgroupInfo} (inside : left ∈ one.cgroups)
    (within : right ∈ two.cgroups) (same : left.cgroupID = right.cgroupID) : one = two ∧ left = right := by
  obtain ⟨each, apart⟩ := List.nodup_flatMap.mp distinct
  have symmetric : Std.Symm (Function.onFun List.Disjoint PodDirectory.ids) := ⟨fun _ _ disjoint => disjoint.symm⟩
  have one_two : one = two := by
    by_contra different
    exact apart.forall first second different (List.mem_map_of_mem inside) (same ▸ List.mem_map_of_mem within)
  subst one_two
  exact ⟨rfl, List.inj_on_of_nodup_map (each one first) inside within same⟩

theorem PodDirectory.Of.mem_cgroups {directory : PodDirectory} {ns : String} {own cInfo : CgroupInfo}
    (belongs : directory.Of s world ns own) : cInfo ∈ directory.cgroups ↔ cInfo = own ∨ cInfo ∈ directory.children := by
  rw [cgroups, belongs.read]
  exact List.mem_cons

/-- The adoptions of a scan, read off the state that it finds. -/
theorem mem_adoptions (distinct : (directories.flatMap PodDirectory.ids).Nodup)
    (every : ∀ ns, ((world.nodes s.nodeID).nsCgroups ns).isSome → ns ∈ order) {ns : String} {cInfo : CgroupInfo} :
    (ns, cInfo) ∈ adoptions world.pods (world.nodes s.nodeID).nsCgroups directories order ↔
      ∃ directory ∈ directories, ∃ own, directory.Of s world ns own ∧ own.cgroupID ∉ (world.nodes s.nodeID).known ns ∧
        (cInfo = own ∨ cInfo ∈ directory.children) ∧ cInfo.cgroupID ∉ (world.nodes s.nodeID).known ns := by
  constructor
  · intro member
    obtain ⟨other, -, inside⟩ := List.mem_flatMap.mp member
    cases snapshot : (world.nodes s.nodeID).nsCgroups other with
    | none =>
      rw [snapshot] at inside
      cases inside
    | some existing =>
      rw [snapshot] at inside
      obtain ⟨found, taken, same⟩ := List.mem_map.mp inside
      obtain ⟨rfl, rfl⟩ := Prod.mk.inj same
      obtain ⟨directory, listed, passed, outside⟩ := (mem_adopted distinct).mp taken
      obtain ⟨own, read, new, matched, cgroup⟩ := PodDirectory.mem_taken.mp passed
      have known : (world.nodes s.nodeID).known other = existing := by rw [Node.known, snapshot, Option.getD_some]
      rw [known]
      exact ⟨directory, listed, own, ⟨by rw [snapshot]; rfl, read, PodDirectory.ofPod_iff.mp matched⟩, new, cgroup, outside⟩
  · rintro ⟨directory, listed, own, ⟨tracked, read, pod⟩, new, cgroup, outside⟩
    obtain ⟨existing, snapshot⟩ := Option.isSome_iff_exists.mp tracked
    have known : (world.nodes s.nodeID).known ns = existing := by rw [Node.known, snapshot, Option.getD_some]
    rw [known] at new outside
    refine List.mem_flatMap.mpr ⟨ns, every ns tracked, ?_⟩
    rw [snapshot]
    apply List.mem_map_of_mem
    refine (mem_adopted distinct).mpr ⟨directory, listed, ?_, outside⟩
    exact PodDirectory.mem_taken.mpr ⟨own, read, new, PodDirectory.ofPod_iff.mpr pod, cgroup⟩

/-- Whatever namespace adopts a cgroup, it adopts it from the directory that the cgroup is of. -/
theorem adoption_of_cgroup (distinct : (directories.flatMap PodDirectory.ids).Nodup)
    (every : ∀ ns, ((world.nodes s.nodeID).nsCgroups ns).isSome → ns ∈ order) {directory : PodDirectory}
    (listed : directory ∈ directories) {ns other : String} {own cInfo found : CgroupInfo} (belongs : directory.Of s world ns own)
    (cgroup : cInfo = own ∨ cInfo ∈ directory.children) (same : found.cgroupID = cInfo.cgroupID)
    (member : (other, found) ∈ adoptions world.pods (world.nodes s.nodeID).nsCgroups directories order) :
    found = cInfo ∧ directory.Of s world other own ∧ own.cgroupID ∉ (world.nodes s.nodeID).known other ∧
      cInfo.cgroupID ∉ (world.nodes s.nodeID).known other := by
  obtain ⟨source, listed', own', belongs', new, cgroup', outside⟩ := (mem_adoptions distinct every).mp member
  obtain ⟨rfl, rfl⟩ := same_cgroup distinct listed' listed (belongs'.mem_cgroups.mpr cgroup')
    (belongs.mem_cgroups.mpr cgroup) same
  obtain rfl := Option.some.inj (belongs.read.symm.trans belongs'.read)
  exact ⟨rfl, belongs', new, outside⟩

/-- A scan covers the pod directories exactly when it finds a state that it can cover. -/
theorem scan_covers_iff (hierarchy : Hierarchy) (every : ∀ ns, ((world.nodes s.nodeID).nsCgroups ns).isSome → ns ∈ order) :
    Covered s world hierarchy.podDirectories ((Flow.exec s smooth
      (Syncer.scanCgroups (order.map fun ns => (ns, hierarchy.podDirectories))) world).2.nodes s.nodeID) ↔
      Coverable s world hierarchy.podDirectories := by
  have distinct := hierarchy.podDirectories_distinct
  generalize hierarchy.podDirectories = directories at distinct
  rw [scanCgroups_adopts s world order (distinct_each distinct), Cluster.editNode_self]
  have tracked := Node.adopted_tracked (world.nodes s.nodeID)
    (adoptions world.pods (world.nodes s.nodeID).nsCgroups directories order)
  have last := Node.adopted_last (world.nodes s.nodeID)
    (adoptions world.pods (world.nodes s.nodeID).nsCgroups directories order)
  generalize (adoptions world.pods (world.nodes s.nodeID).nsCgroups directories order).foldl Node.adopt (world.nodes s.nodeID) = later
    at tracked last
  constructor
  · intro covered
    refine ⟨?_, ?_, ?_⟩
    · intro ns directory listed own belongs skips child inside
      -- the child is tracked at the end, and no adoption for the namespace can be its own
      obtain ⟨known, -⟩ := covered ns directory listed own belongs child (.inr inside)
      rcases (tracked ns child.cgroupID).mp known with before | ⟨⟨_, cInfo⟩, member, rfl, same⟩
      · exact before
      · obtain ⟨-, -, new, -⟩ := adoption_of_cgroup distinct every listed belongs (.inr inside) same member
        exact absurd skips new
    · intro ns other directory listed own belongs belongs'
      have one := (covered ns directory listed own belongs own (.inl rfl)).2.mapped .fd
      have two := (covered other directory listed own belongs' own (.inl rfl)).2.mapped .fd
      exact Option.some.inj (one.symm.trans two)
    · intro ns directory listed own belongs cInfo cgroup known
      obtain ⟨-, entered⟩ := covered ns directory listed own belongs cInfo cgroup
      rcases last cInfo.cgroupID with ⟨⟨other, found⟩, member, same, -⟩ | ⟨-, path, mapped⟩
      · obtain ⟨-, belongs', -, outside⟩ := adoption_of_cgroup distinct every listed belongs cgroup same member
        exact absurd (known other belongs') outside
      · exact ⟨fun resource => (mapped resource).symm.trans (entered.mapped resource), path.symm.trans entered.path⟩
  · rintro ⟨skipped, agree, left⟩ ns directory listed own belongs cInfo cgroup
    -- where the own cgroup is tracked, so is this one
    have whole {other : String} (belongs' : directory.Of s world other own)
        (skips : own.cgroupID ∈ (world.nodes s.nodeID).known other) : cInfo.cgroupID ∈ (world.nodes s.nodeID).known other := by
      rcases cgroup with rfl | inside
      · exact skips
      · exact skipped other directory listed own belongs' skips cInfo inside
    have adopts {other : String} (belongs' : directory.Of s world other own)
        (outside : cInfo.cgroupID ∉ (world.nodes s.nodeID).known other) :
        (other, cInfo) ∈ adoptions world.pods (world.nodes s.nodeID).nsCgroups directories order :=
      (mem_adoptions distinct every).mpr
        ⟨directory, listed, own, belongs', fun skips => outside (whole belongs' skips), cgroup, outside⟩
    refine ⟨(tracked ns cInfo.cgroupID).mpr ?_, ?_⟩
    · by_cases before : cInfo.cgroupID ∈ (world.nodes s.nodeID).known ns
      · exact .inl before
      · exact .inr ⟨_, adopts belongs before, rfl, rfl⟩
    · rcases last cInfo.cgroupID with ⟨⟨other, found⟩, member, same, path, mapped⟩ | ⟨none_adopted, path, mapped⟩
      · obtain ⟨rfl, belongs', -⟩ := adoption_of_cgroup distinct every listed belongs cgroup same member
        have key := agree ns other directory listed own belongs belongs'
        exact ⟨fun resource => (mapped resource).trans (congrArg some key.symm), path⟩
      · have entered := left ns directory listed own belongs cInfo cgroup fun other belongs' => by
          by_contra outside
          exact none_adopted _ (adopts belongs' outside) rfl
        exact ⟨fun resource => (mapped resource).trans (entered.mapped resource), path.trans entered.path⟩

end coverage

/-- A pod with one container. -/
def onePod : Hierarchy where
  tree := .directory ⟨"kubepods-podb_9.slice", by decide +kernel⟩ (some 1)
    (.file ⟨"pids.max", by decide +kernel⟩ (.directory ⟨"container", by decide +kernel⟩ (some 2) .done .done)) .done
  distinct := by decide

/-- The namespace of the pod is tracked with some cgroups, and each is mapped and recorded. -/
def oneTracked (known : Finset UInt64) (path : String) : Cluster :=
  let mapped (cgroupID : UInt64) : Option UInt64 := if cgroupID ∈ known then some (namespaceKey "team") else none
  let maps : ResourceMaps := { ResourceMaps.empty with cgroup := mapped }
  { Cluster.empty [] with pods := fun ns => if ns = "team" then [⟨"b-9", .running⟩] else [] }.editNode "node"
    { Node.empty with
      bpf := (Node.empty.bpf.withMaps .fd maps).withMaps .proc maps
      nsCgroups := fun ns => if ns = "team" then some known else none
      cgroupPaths := fun cgroupID => if cgroupID ∈ known then some path else none }

/-- A pod that is not tracked yet is covered with its container. -/
theorem new_pod_covered :
    Covered ⟨"node", none⟩ (oneTracked ∅ "") onePod.podDirectories ((Flow.exec ⟨"node", none⟩ smooth
      (Syncer.scanCgroups (["team"].map fun ns => (ns, onePod.podDirectories))) (oneTracked ∅ "")).2.nodes "node") := by
  have only {ns : String} (tracked : (((oneTracked ∅ "").nodes "node").nsCgroups ns).isSome) : ns = "team" := by
    by_contra different
    rw [show ((oneTracked ∅ "").nodes "node").nsCgroups ns = none from if_neg different] at tracked
    cases tracked
  have nothing (ns : String) (cgroupID : UInt64) : cgroupID ∉ ((oneTracked ∅ "").nodes "node").known ns := by
    change cgroupID ∉ (if ns = "team" then some ∅ else none).getD ∅
    split <;> exact Finset.notMem_empty cgroupID
  refine (@scan_covers_iff ⟨"node", none⟩ (oneTracked ∅ "") ["team"] onePod ?_).mpr ⟨?_, ?_, ?_⟩
  · intro ns tracked
    exact List.mem_singleton.mpr (only tracked)
  · intro ns directory _ own _ skips
    exact absurd skips (nothing ns own.cgroupID)
  · intro ns other directory _ own belongs belongs'
    rw [only belongs.tracked, only belongs'.tracked]
  · intro ns directory _ own belongs cInfo _ known
    exact absurd (known ns belongs) (nothing ns cInfo.cgroupID)

/-- A container that starts after its pod's cgroup was tracked is skipped. -/
theorem late_container_skipped :
    let world := oneTracked {1} "/sys/fs/cgroup/kubepods.slice/kubepods-podb_9.slice"
    ¬ Covered ⟨"node", none⟩ world onePod.podDirectories ((Flow.exec ⟨"node", none⟩ smooth
      (Syncer.scanCgroups (["team"].map fun ns => (ns, onePod.podDirectories))) world).2.nodes "node") := by
  intro world covered
  let own : CgroupInfo := ⟨1, "/sys/fs/cgroup/kubepods.slice/kubepods-podb_9.slice"⟩
  let child : CgroupInfo := ⟨2, "/sys/fs/cgroup/kubepods.slice/kubepods-podb_9.slice/container"⟩
  have directories : onePod.podDirectories.map (fun directory => (directory.info, directory.uid, directory.children)) =
      [(some own, some "b_9", [child])] := by decide +kernel
  obtain ⟨⟨info, uid, children⟩, listed, same⟩ := List.mem_map.mp (directories ▸ List.mem_singleton.mpr rfl)
  obtain ⟨rfl, rest⟩ := Prod.mk.inj same
  obtain ⟨rfl, rfl⟩ := Prod.mk.inj rest
  have belongs : PodDirectory.Of ⟨some own, some "b_9", [child]⟩ ⟨"node", none⟩ world "team" own :=
    ⟨rfl, rfl, "b_9", rfl, ⟨"b-9", .running⟩, List.mem_singleton.mpr rfl, by decide +kernel⟩
  obtain ⟨tracked, -⟩ := covered "team" _ listed own belongs child (.inr List.mem_cons_self)
  revert tracked
  decide +kernel

end QuotaManager
