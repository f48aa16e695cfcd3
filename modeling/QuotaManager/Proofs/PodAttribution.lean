import QuotaManager.Proofs.PodLayouts

/-! Whose cgroups the resolver returns. All candidates of a pod carry its identifier, and
a candidate is never above another pod's, so the directories of two pods lie apart; and
as no two directories share an inode, no cgroup is returned for two pods. -/

namespace QuotaManager
open Paths

/-- A directory with this inode, by the names down to it. -/
inductive Listing.Located : Listing → List Name → UInt64 → Prop where
  | here {name : Name} {inode : UInt64} {content rest : Listing} : Located (.directory name (some inode) content rest) [name] inode
  | inside {name : Name} {own : Option UInt64} {content rest : Listing} {names : List Name} {inode : UInt64}
    (located : Located content names inode) : Located (.directory name own content rest) (name :: names) inode
  | past {name : Name} {rest : Listing} {names : List Name} {inode : UInt64} (located : Located rest names inode) :
    Located (.file name rest) names inode
  | beside {name : Name} {own : Option UInt64} {content rest : Listing} {names : List Name} {inode : UInt64}
    (located : Located rest names inode) : Located (.directory name own content rest) names inode

namespace Listing

theorem Located.mem {listing : Listing} {names : List Name} {inode : UInt64} (located : listing.Located names inode) :
    inode ∈ listing.inodes := by
  induction located with
  | here => exact List.mem_cons_self
  | inside _ ih => exact List.mem_append_right _ (List.mem_append_left _ ih)
  | past _ ih => exact ih
  | beside _ ih => exact List.mem_append_right _ (List.mem_append_right _ ih)

/-- Without shared inodes, the inode tells the directory. -/
theorem Located.unique {listing : Listing} (distinct : listing.inodes.Nodup) {names others : List Name} {inode : UInt64}
    (one : listing.Located names inode) (two : listing.Located others inode) : names = others := by
  induction one generalizing others with
  | here =>
    obtain ⟨_, _, apart⟩ := List.nodup_append.mp distinct
    cases two with
    | here => rfl
    | inside inner => exact absurd rfl (apart _ (List.mem_singleton.mpr rfl) _ (List.mem_append_left _ inner.mem))
    | beside later => exact absurd rfl (apart _ (List.mem_singleton.mpr rfl) _ (List.mem_append_right _ later.mem))
  | inside located ih =>
    obtain ⟨_, below, apart⟩ := List.nodup_append.mp distinct
    obtain ⟨inner, _, between⟩ := List.nodup_append.mp below
    cases two with
    | here => exact absurd rfl (apart _ (List.mem_singleton.mpr rfl) _ (List.mem_append_left _ located.mem))
    | inside other => rw [ih inner other]
    | beside later => exact absurd rfl (between _ located.mem _ later.mem)
  | past _ ih =>
    cases two with
    | past later => exact ih distinct later
  | beside located ih =>
    obtain ⟨_, below, apart⟩ := List.nodup_append.mp distinct
    obtain ⟨_, later, between⟩ := List.nodup_append.mp below
    cases two with
    | here => exact absurd rfl (apart _ (List.mem_singleton.mpr rfl) _ (List.mem_append_right _ located.mem))
    | inside inner => exact absurd rfl (between _ inner.mem _ located.mem)
    | beside other => exact ih later other

theorem children_located {content : Listing} {path : String} {cInfo : CgroupInfo} (child : cInfo ∈ content.children path) :
    ∃ name, content.Located [name] cInfo.cgroupID ∧ cInfo.cgroupPath = join [path, name.text] := by
  induction content with
  | done | failed => cases child
  | file _ rest ih =>
    obtain ⟨name, located, here⟩ := ih child
    exact ⟨name, .past located, here⟩
  | directory name inode _ rest _ ih =>
    have later (member : cInfo ∈ rest.children path) := ih member
    cases inode with
    | none =>
      obtain ⟨other, located, here⟩ := ih child
      exact ⟨other, .beside located, here⟩
    | some inode =>
      rcases List.mem_cons.mp child with rfl | member
      · exact ⟨name, .here, rfl⟩
      · obtain ⟨other, located, here⟩ := ih member
        exact ⟨other, .beside located, here⟩

/-- What is found at a path is a directory of the tree, with its children below it. -/
theorem find_located {tree : Listing} {path root : String} {directory : Directory} (found : tree.find path root = some directory) :
    ∃ names, names ≠ [] ∧ path = join (root :: names.map Name.text) ∧ directory.path = path ∧
      (∀ inode, directory.inode = some inode → tree.Located names inode) ∧
      ∀ cInfo ∈ directory.childInfos, ∃ name, tree.Located (names ++ [name]) cInfo.cgroupID := by
  induction tree generalizing root with
  | done | failed => cases found
  | file name rest ih =>
    obtain ⟨names, something, here, same, own, below⟩ := ih found
    refine ⟨names, something, here, same, fun inode is => .past (own inode is), fun cInfo child => ?_⟩
    obtain ⟨child, located⟩ := below cInfo child
    exact ⟨child, .past located⟩
  | directory name inode content rest inside later =>
    simp only [find] at found
    split at found
    next here =>
      cases found
      refine ⟨[name], List.cons_ne_nil _ _, here.symm, here, fun own is => ?_, fun cInfo child => ?_⟩
      · cases is
        exact .here
      · obtain ⟨child, located, _⟩ := children_located child
        exact ⟨child, .inside located⟩
    · have either : content.find path (join [root, name.text]) = some directory ∨ rest.find path root = some directory := by
        cases within : content.find path (join [root, name.text]) with
        | none =>
          rw [within] at found
          exact .inr found
        | some first =>
          rw [within] at found
          exact .inl found
      rcases either with inner | other
      · obtain ⟨names, something, here, same, own, below⟩ := inside inner
        refine ⟨name :: names, List.cons_ne_nil _ _, ?_, same, fun inode is => .inside (own inode is), fun cInfo child => ?_⟩
        · rw [here]
          exact join_join (List.cons_ne_nil name []) something
        · obtain ⟨child, located⟩ := below cInfo child
          exact ⟨child, .inside located⟩
      · obtain ⟨names, something, here, same, own, below⟩ := later other
        refine ⟨names, something, here, same, fun inode is => .beside (own inode is), fun cInfo child => ?_⟩
        obtain ⟨child, located⟩ := below cInfo child
        exact ⟨child, .beside located⟩

end Listing

/-- Above a candidate there are the directories of classes only. -/
theorem candidate_above {uid path : String} {above : List Name} {own : Name} (valid : PodUID uid) (candidate : path ∈ candidates uid)
    (located : path = absolute (kubepodsNames ++ (above ++ [own]))) : ∀ name ∈ above, name.text.toList.head? = some 'k' := by
  have same {higher : List Name} {other : Name}
      (there : join (cgroupFsRoot :: "kubepods.slice" :: (higher ++ [other]).map Name.text) = path) : above = higher := by
    rw [joined_below, located] at there
    exact (List.append_inj' (List.append_cancel_left (absolute_inj there)) rfl).1.symm
  have classed {qos : String} (known : qos ∈ ["besteffort", "burstable", "guaranteed"]) (own : Name)
      (there : join (cgroupFsRoot :: "kubepods.slice" :: ([qosName qos known] ++ [own]).map Name.text) = path) :
      ∀ name ∈ above, name.text.toList.head? = some 'k' := by
    intro name member
    rw [same there, List.mem_singleton] at member
    rw [member, qosName, String.toList_append, String.toList_append]
    rfl
  have plain (own : Name) (there : join (cgroupFsRoot :: "kubepods.slice" :: ([] ++ [own]).map Name.text) = path) :
      ∀ name ∈ above, name.text.toList.head? = some 'k' := by
    intro name member
    rw [same there] at member
    cases member
  rcases List.mem_append.mp candidate with first | later
  · simp only [List.mem_cons, List.not_mem_nil, or_false] at first
    rcases first with here | here
    · have known : "kubepods-pod" ∈ leads := by decide
      exact plain (valid.sliceName _ known) here.symm
    · exact plain valid.bareName here.symm
  · obtain ⟨qos, known, member⟩ := List.mem_flatMap.mp later
    simp only [List.mem_cons, List.not_mem_nil, or_false] at member
    have lead_known : "kubepods-" ++ qos ++ "-pod" ∈ leads := by
      clear member
      revert qos
      decide +kernel
    rcases member with here | here
    · exact classed known (valid.sliceName _ lead_known) here.symm
    · exact classed known valid.bareName here.symm

/-- What a pod's identifier makes of a name tells the identifier. -/
theorem own_inj {uid other : String} {own : Name} (valid : PodUID uid) (also : PodUID other)
    (one : (∃ lead known, own = valid.sliceName lead known) ∨ own = valid.bareName)
    (two : (∃ lead known, own = also.sliceName lead known) ∨ own = also.bareName) : uid = other := by
  have encoded (same : replaceAll '-' '_' uid = replaceAll '-' '_' other) : uid = other := by
    rw [← valid.restored, same, also.restored]
  rcases one with ⟨lead, known, rfl⟩ | rfl
  · have marked := podID_slice valid known
    rcases two with ⟨further, given, same⟩ | same
    · rw [same, podID_slice also given] at marked
      exact encoded (Option.some.inj marked).symm
    · rw [same, podID_bare also] at marked
      cases marked
  · have unmarked := podID_bare valid
    rcases two with ⟨further, given, same⟩ | same
    · rw [same, podID_slice also given] at unmarked
      cases unmarked
    · have texts := congrArg (fun name : Name => name.text.toList) same
      simp only [PodUID.bareName, String.toList_append] at texts
      exact encoded (String.toList_inj.mp (List.append_cancel_left texts))

/-- No candidate of a pod lies above one of another pod. -/
theorem own_not_above {uid other path : String} {above : List Name} {own name : Name} (valid : PodUID uid) (also : PodUID other)
    (candidate : path ∈ candidates uid) (located : path = absolute (kubepodsNames ++ (above ++ [own])))
    (unmarked : ∀ name ∈ above, podIDFromCgroupPath name.text = none)
    (shape : (∃ lead known, name = also.sliceName lead known) ∨ name = also.bareName) : name ∉ above := by
  intro member
  rcases shape with ⟨lead, known, rfl⟩ | rfl
  · have marked := podID_slice also known
    rw [unmarked _ member] at marked
    cases marked
  · have first := candidate_above valid candidate located _ member
    rw [PodUID.bareName, String.toList_append] at first
    exact absurd (Option.some.inj first) (by decide)

/-- All that a pod resolves to is one directory, named after it, and its children. -/
theorem podResolve_located {tree : Listing} {uid : String} {cInfos : List CgroupInfo} (valid : PodUID uid)
    (resolved : podResolve tree uid = some cInfos) : ∃ above own,
    (∃ path ∈ candidates uid, path = absolute (kubepodsNames ++ (above ++ [own]))) ∧
    (∀ name ∈ above, podIDFromCgroupPath name.text = none) ∧
    ((∃ lead known, own = valid.sliceName lead known) ∨ own = valid.bareName) ∧
    ∀ cInfo ∈ cInfos, ∃ children, (children = [] ∨ ∃ child, children = [child]) ∧
      tree.Located (above ++ [own] ++ children) cInfo.cgroupID := by
  obtain ⟨path, candidate, read⟩ := List.exists_of_findSome?_eq_some resolved
  obtain ⟨directory, found, opened⟩ := Option.bind_eq_some_iff.mp read
  obtain ⟨info, stated, ended⟩ := Option.bind_eq_some_iff.mp opened
  obtain rfl := Option.some.inj ended
  obtain ⟨above, own, located, unmarked, shape⟩ := candidate_cases valid candidate
  obtain ⟨names, something, here, -, inode, below⟩ := Listing.find_located found
  rw [join_kubepods something, located] at here
  obtain rfl := List.append_cancel_left (absolute_inj here)
  refine ⟨above, own, ⟨path, candidate, located⟩, unmarked, shape, fun cInfo member => ?_⟩
  rcases List.mem_append.mp member with child | itself
  · obtain ⟨name, inside⟩ := below cInfo child
    exact ⟨[name], .inr ⟨name, rfl⟩, inside⟩
  · obtain rfl := List.mem_singleton.mp itself
    obtain ⟨id, known, rfl⟩ := Option.map_eq_some_iff.mp stated
    refine ⟨[], .inl rfl, ?_⟩
    rw [List.append_nil]
    exact inode id known

/-- No cgroup is returned for two pods. -/
theorem resolve_disjoint (hierarchy : Hierarchy) {uid other : String} (valid : PodUID uid) (also : PodUID other)
    (different : uid ≠ other) {cInfos others : List CgroupInfo} (resolved : podResolve hierarchy.tree uid = some cInfos)
    (second : podResolve hierarchy.tree other = some others) :
    ∀ cInfo ∈ cInfos, ∀ further ∈ others, cInfo.cgroupID ≠ further.cgroupID := by
  intro cInfo member further inside same
  obtain ⟨above, own, ⟨path, candidate, located⟩, unmarked, shape, directories⟩ := podResolve_located valid resolved
  obtain ⟨higher, name, ⟨route, possible, placed⟩, bare, form, places⟩ := podResolve_located also second
  obtain ⟨children, few, one⟩ := directories cInfo member
  obtain ⟨descendants, least, two⟩ := places further inside
  rw [← same] at two
  have equal := one.unique hierarchy.distinct two
  rcases few with rfl | ⟨child, rfl⟩ <;> rcases least with rfl | ⟨descendant, rfl⟩
  · rw [List.append_nil, List.append_nil] at equal
    obtain rfl := List.singleton_inj.mp (List.append_inj' equal rfl).2
    exact different (own_inj valid also shape form)
  · -- the directory of the first would be a child of the second's
    rw [List.append_nil] at equal
    have inner : above = higher ++ [name] := (List.append_inj' equal rfl).1
    exact own_not_above valid also candidate located unmarked form (inner ▸ List.mem_append_right _ List.mem_cons_self)
  · rw [List.append_nil] at equal
    have inner : higher = above ++ [own] := (List.append_inj' equal.symm rfl).1
    exact own_not_above also valid possible placed bare shape (inner ▸ List.mem_append_right _ List.mem_cons_self)
  · have upper := (List.append_inj' equal rfl).1
    obtain rfl := List.singleton_inj.mp (List.append_inj' upper rfl).2
    exact different (own_inj valid also shape form)

/-- One pod as systemd lays it out, the other as cgroupfs does. -/
theorem resolve_disjoint_layouts :
    let tree : Listing := .directory ⟨"kubepods-podc_9.slice", by decide +kernel⟩ (some 3)
      (.directory ⟨"cri-1.scope", by decide +kernel⟩ (some 4) .done .done)
      (.directory ⟨"podb", by decide +kernel⟩ (some 5) (.directory ⟨"2", by decide +kernel⟩ (some 6) .done .done) .done)
    ∃ cInfos others, podResolve tree "c-9" = some cInfos ∧ podResolve tree "b" = some others ∧
      cInfos.length = 2 ∧ others.length = 2 ∧ ∀ cInfo ∈ cInfos, ∀ further ∈ others, cInfo.cgroupID ≠ further.cgroupID := by
  intro tree
  have one : podResolve tree "c-9" = some [⟨4, "/sys/fs/cgroup/kubepods.slice/kubepods-podc_9.slice/cri-1.scope"⟩,
      ⟨3, "/sys/fs/cgroup/kubepods.slice/kubepods-podc_9.slice"⟩] := by decide +kernel
  have two : podResolve tree "b" = some [⟨6, "/sys/fs/cgroup/kubepods.slice/podb/2"⟩,
      ⟨5, "/sys/fs/cgroup/kubepods.slice/podb"⟩] := by decide +kernel
  exact ⟨_, _, one, two, rfl, rfl, resolve_disjoint ⟨tree, by decide⟩ ⟨by decide, by decide +kernel⟩
    ⟨by decide, by decide +kernel⟩ (by decide) one two⟩

end QuotaManager
