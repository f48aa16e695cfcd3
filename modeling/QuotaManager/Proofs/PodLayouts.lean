import QuotaManager.Proofs.PodSearch

/-! Which of the resolver's pod directories a scan recognises. Half of the candidates
have no "-pod" in their name; these are found by the resolver only. -/

namespace QuotaManager
open Paths

def cgroupFsNames : List Name := [⟨"sys", by decide +kernel⟩, ⟨"fs", by decide +kernel⟩, ⟨"cgroup", by decide +kernel⟩]

def kubepodsName : Name := ⟨"kubepods.slice", by decide +kernel⟩

def kubepodsNames : List Name := cgroupFsNames ++ [kubepodsName]

def Listing.Has (tree : Listing) (path : String) : Prop :=
  ∃ names, tree.Lies (fun _ => True) names ∧ path = absolute (kubepodsNames ++ names)

/-- Every listing on the way to the directory can be read. -/
def Listing.Reaches (tree : Listing) (path : String) : Prop :=
  tree.complete ∧ ∃ names, tree.Lies (fun content => content.complete = true) names ∧ path = absolute (kubepodsNames ++ names)

def hexDigit (char : Char) : Bool :=
  ('0' ≤ char ∧ char ≤ '9') ∨ ('a' ≤ char ∧ char ≤ 'f') ∨ ('A' ≤ char ∧ char ≤ 'F')

/-- A pod's identifier is made of hex digits and dashes. -/
structure PodUID (uid : String) : Prop where
  nonempty : uid ≠ ""
  letters : uid.toList.all fun char => char = '-' ∨ hexDigit char

/-- The scan finds the directory and takes it for the pod's. -/
def Recognised (tree : Listing) (uid path : String) : Prop :=
  path ∈ findPodCgroupDirs kubepods tree ∧ ∃ found, podIDFromCgroupPath path = some found ∧ replaceAll '_' '-' found = uid

theorem kubepods_absolute : kubepods = absolute kubepodsNames := by decide +kernel

theorem join_kubepods {names : List Name} (something : names ≠ []) :
    join (kubepods :: names.map Name.text) = absolute (kubepodsNames ++ names) := by
  rw [kubepods_absolute]
  exact join_absolute (List.cons_ne_nil _ _) something

theorem podID_absolute (names : List Name) (name : Name) :
    podIDFromCgroupPath (absolute (names ++ [name])) = podIDFromCgroupPath name.text := by
  rw [podIDFromCgroupPath, podIDFromCgroupPath, base_absolute, base_name]

theorem hexDigit_apart {char : Char} (plain : char = '_' ∨ hexDigit char) : char ≠ '/' ∧ char ≠ '-' ∧ char ≠ '.' := by
  refine ⟨?_, ?_, ?_⟩
  all_goals
    rintro rfl
    revert plain
    decide

theorem PodUID.letter {uid : String} (valid : PodUID uid) {char : Char} (member : char ∈ uid.toList) :
    char = '-' ∨ hexDigit char :=
  of_decide_eq_true (List.all_eq_true.mp valid.letters char member)

/-- In a path the identifier has underscores for dashes. -/
theorem PodUID.plain {uid : String} (valid : PodUID uid) :
    ∀ char ∈ (replaceAll '-' '_' uid).toList, char = '_' ∨ hexDigit char := by
  intro char member
  rw [replaceAll, String.toList_ofList] at member
  obtain ⟨original, inside, rfl⟩ := List.mem_map.mp member
  by_cases dash : original = '-'
  · rw [if_pos dash]
    exact .inl rfl
  · rw [if_neg dash]
    exact .inr ((valid.letter inside).resolve_left dash)

theorem PodUID.restored {uid : String} (valid : PodUID uid) : replaceAll '_' '-' (replaceAll '-' '_' uid) = uid := by
  have letters : (uid.toList.map fun char => if char = '-' then '_' else char).map
      (fun char => if char = '_' then '-' else char) = uid.toList := by
    rw [List.map_map]
    refine (List.map_congr_left ?_).trans (List.map_id _)
    intro char member
    rcases valid.letter member with rfl | digit
    · rfl
    · have apart := hexDigit_apart (.inr digit)
      have other : char ≠ '_' := by
        rintro rfl
        cases digit
      simp [apart.2.1, other]
  rw [replaceAll, replaceAll, String.toList_ofList, letters, String.ofList_toList]

/-- What precedes the identifier where a directory is recognised. -/
def leads : List String :=
  ["kubepods-pod", "kubepods-besteffort-pod", "kubepods-burstable-pod", "kubepods-guaranteed-pod"]

theorem leads_begin : ∀ lead ∈ leads, lead.toList.head? = some 'k' ∧ '/' ∉ lead.toList := by decide +kernel

theorem split_lead {lead : String} (known : lead ∈ leads) (tail : List Char) :
    ∃ before, Text.splitFirst "-pod".toList (lead.toList ++ tail) = some (before, tail) := by
  simp only [leads, List.mem_cons, List.not_mem_nil, or_false] at known
  rcases known with rfl | rfl | rfl | rfl
  all_goals exact ⟨_, rfl⟩

/-- A text that begins with a letter other than a dot, and has no slash, is a name. -/
theorem proper_text {text : String} {first : Char} {rest : List Char} (begins : text.toList = first :: rest)
    (dotless : first ≠ '.') (slashless : '/' ∉ text.toList) : text ≠ "" ∧ text ≠ "." ∧ text ≠ ".." ∧ '/' ∉ text.toList := by
  refine ⟨?_, ?_, ?_, slashless⟩
  · rintro rfl
    cases begins
  · rintro rfl
    exact dotless (List.cons.inj begins).1.symm
  · rintro rfl
    exact dotless (List.cons.inj begins).1.symm

theorem PodUID.slashless {uid : String} (valid : PodUID uid) : '/' ∉ (replaceAll '-' '_' uid).toList :=
  fun member => (hexDigit_apart (valid.plain '/' member)).1 rfl

def PodUID.bareName {uid : String} (valid : PodUID uid) : Name where
  text := "pod" ++ replaceAll '-' '_' uid
  proper := by
    apply proper_text
    · rw [String.toList_append]
      rfl
    · decide
    · rw [String.toList_append]
      exact List.not_mem_append (by decide) valid.slashless

def PodUID.sliceName {uid : String} (valid : PodUID uid) (lead : String) (known : lead ∈ leads) : Name where
  text := lead ++ replaceAll '-' '_' uid ++ ".slice"
  proper := by
    obtain ⟨first, slashless⟩ := leads_begin lead known
    obtain ⟨rest, begins⟩ := List.head?_eq_some_iff.mp first
    apply proper_text
    · rw [String.toList_append, String.toList_append, begins]
      rfl
    · decide
    · rw [String.toList_append, String.toList_append]
      exact List.not_mem_append (List.not_mem_append slashless valid.slashless) (by decide)

/-- The directory of a quality-of-service class. -/
def qosName (qos : String) (known : qos ∈ ["besteffort", "burstable", "guaranteed"]) : Name where
  text := "kubepods-" ++ qos ++ ".slice"
  proper := by
    simp only [List.mem_cons, List.not_mem_nil, or_false] at known
    rcases known with rfl | rfl | rfl
    all_goals decide +kernel

theorem podID_slice {uid : String} (valid : PodUID uid) {lead : String} (known : lead ∈ leads) :
    podIDFromCgroupPath (valid.sliceName lead known).text = some (replaceAll '-' '_' uid) := by
  obtain ⟨before, split⟩ := split_lead known ((replaceAll '-' '_' uid).toList ++ ".slice".toList)
  rw [podIDFromCgroupPath, base_name]
  simp only [PodUID.sliceName, String.toList_append, List.append_assoc, split, Text.trimSuffix_append, String.ofList_toList]

theorem podID_bare {uid : String} (valid : PodUID uid) : podIDFromCgroupPath valid.bareName.text = none := by
  have dashless : '-' ∉ "pod".toList ++ (replaceAll '-' '_' uid).toList :=
    List.not_mem_append (by decide) fun member => (hexDigit_apart (valid.plain '-' member)).2.1 rfl
  have absent : Text.splitFirst "-pod".toList ("pod".toList ++ (replaceAll '-' '_' uid).toList) = none :=
    Text.splitFirst_none dashless
  rw [podIDFromCgroupPath, base_name]
  simp only [PodUID.bareName, String.toList_append, absent]

theorem podID_qos {qos : String} (known : qos ∈ ["besteffort", "burstable", "guaranteed"]) :
    podIDFromCgroupPath (qosName qos known).text = none := by
  change podIDFromCgroupPath ("kubepods-" ++ qos ++ ".slice") = none
  simp only [List.mem_cons, List.not_mem_nil, or_false] at known
  rcases known with rfl | rfl | rfl
  all_goals decide +kernel

theorem joined_below (above : List Name) (own : Name) :
    join (cgroupFsRoot :: "kubepods.slice" :: (above ++ [own]).map Name.text) = absolute (kubepodsNames ++ (above ++ [own])) := by
  have something : cgroupFsNames ≠ [] := List.cons_ne_nil _ _
  have root : cgroupFsRoot = absolute cgroupFsNames := by decide +kernel
  have joined := join_absolute something (List.cons_ne_nil kubepodsName (above ++ [own]))
  rw [root, kubepodsNames, List.append_assoc]
  exact joined

/-- A candidate's name begins with a lead, or has only "pod" before the identifier; the
directories above it are not a pod's. -/
theorem candidate_cases {uid path : String} (valid : PodUID uid) (candidate : path ∈ candidates uid) : ∃ above own,
    path = absolute (kubepodsNames ++ (above ++ [own])) ∧ (∀ name ∈ above, podIDFromCgroupPath name.text = none) ∧
    ((∃ lead known, own = valid.sliceName lead known) ∨ own = valid.bareName) := by
  have lead_known {qos : String} (known : qos ∈ ["besteffort", "burstable", "guaranteed"]) : "kubepods-" ++ qos ++ "-pod" ∈ leads := by
    revert qos
    decide +kernel
  have no_name : ∀ name ∈ ([] : List Name), podIDFromCgroupPath name.text = none :=
    fun _ impossible => absurd impossible List.not_mem_nil
  have class_name {qos : String} (known : qos ∈ ["besteffort", "burstable", "guaranteed"]) :
      ∀ name ∈ [qosName qos known], podIDFromCgroupPath name.text = none := by
    intro name member
    obtain rfl := List.mem_singleton.mp member
    exact podID_qos known
  rcases List.mem_append.mp candidate with plain | classed
  · simp only [List.mem_cons, List.not_mem_nil, or_false] at plain
    rcases plain with rfl | rfl
    · have known : "kubepods-pod" ∈ leads := by decide
      refine ⟨[], valid.sliceName _ known, ?_, no_name, .inl ⟨_, known, rfl⟩⟩
      exact joined_below [] (valid.sliceName "kubepods-pod" known)
    · refine ⟨[], valid.bareName, ?_, no_name, .inr rfl⟩
      exact joined_below [] valid.bareName
  · obtain ⟨qos, known, member⟩ := List.mem_flatMap.mp classed
    simp only [List.mem_cons, List.not_mem_nil, or_false] at member
    rcases member with rfl | rfl
    · refine ⟨[qosName qos known], valid.sliceName _ (lead_known known), ?_, class_name known, .inl ⟨_, _, rfl⟩⟩
      exact joined_below [qosName qos known] (valid.sliceName ("kubepods-" ++ qos ++ "-pod") (lead_known known))
    · refine ⟨[qosName qos known], valid.bareName, ?_, class_name known, .inr rfl⟩
      exact joined_below [qosName qos known] valid.bareName

/-- Only the directories with a lead end in ".slice". -/
theorem bare_ends {uid : String} (valid : PodUID uid) (names : List Name) :
    ¬ ".slice".toList <:+ (absolute (names ++ [valid.bareName])).toList := by
  have dotless : '.' ∉ '/' :: ("pod".toList ++ (replaceAll '-' '_' uid).toList) := by
    apply List.not_mem_cons_of_ne_of_not_mem (by decide)
    exact List.not_mem_append (by decide) fun member => (hexDigit_apart (valid.plain '.' member)).2.2 rfl
  intro ends
  rw [absolute_last, PodUID.bareName, String.toList_append] at ends
  rcases List.suffix_or_suffix_of_suffix ends (List.suffix_append _ _) with inner | outer
  · exact dotless (inner.subset (by decide))
  · exact absurd (outer.subset List.mem_cons_self) (by decide)

theorem slice_ends {uid : String} (valid : PodUID uid) (names : List Name) {lead : String} (known : lead ∈ leads) :
    ".slice".toList <:+ (absolute (names ++ [valid.sliceName lead known])).toList := by
  rw [absolute_last, PodUID.sliceName, String.toList_append, ← List.cons_append, ← List.append_assoc]
  exact List.suffix_append _ _

/-- A candidate that is there is recognised exactly when its name ends in ".slice" and
the listings above it can be read. -/
theorem candidate_recognised_iff {uid path : String} {tree : Listing} (valid : PodUID uid)
    (candidate : path ∈ candidates uid) (there : tree.Has path) :
    Recognised tree uid path ↔ ".slice".toList <:+ path.toList ∧ tree.Reaches path := by
  obtain ⟨above, own, rfl, unmarked, shape⟩ := candidate_cases valid candidate
  have located (name : Name) : podIDFromCgroupPath (absolute (kubepodsNames ++ (above ++ [name]))) = podIDFromCgroupPath name.text := by
    rw [← List.append_assoc]
    exact podID_absolute _ _
  rcases shape with ⟨lead, known, rfl⟩ | rfl
  · have marked := podID_slice valid known
    rw [and_iff_right (by rw [← List.append_assoc]; exact slice_ends valid _ known)]
    constructor
    · rintro ⟨found, -⟩
      obtain ⟨readable, higher, name, ⟨lies, -, -⟩, same⟩ := mem_findPodCgroupDirs.mp found
      exact ⟨readable, _, lies, same.trans (join_kubepods lies.nonempty)⟩
    · rintro ⟨readable, names, lies, same⟩
      obtain rfl := List.append_cancel_left (absolute_inj same)
      refine ⟨mem_findPodCgroupDirs.mpr ⟨readable, above, _, ⟨lies, unmarked, ?_⟩, (join_kubepods lies.nonempty).symm⟩,
        replaceAll '-' '_' uid, (located _).trans marked, valid.restored⟩
      rw [marked]
      rfl
  · constructor
    · rintro ⟨-, found, decoded, -⟩
      rw [located, podID_bare valid] at decoded
      cases decoded
    · rintro ⟨ends, -⟩
      rw [← List.append_assoc] at ends
      exact absurd ends (bare_ends valid _)

/-- A pod of no class, as systemd names its directory. -/
theorem slice_pod_recognised :
    let path := "/sys/fs/cgroup/kubepods.slice/kubepods-poda_9.slice"
    let tree : Listing := .file ⟨"cgroup.procs", by decide +kernel⟩
      (.directory ⟨"kubepods-poda_9.slice", by decide +kernel⟩ (some 3) .done .done)
    Recognised tree "a-9" path := by
  intro path tree
  have valid : PodUID "a-9" := ⟨by decide, by decide +kernel⟩
  have same : path = absolute (kubepodsNames ++ [⟨"kubepods-poda_9.slice", by decide +kernel⟩]) := by decide +kernel
  have candidate : path ∈ candidates "a-9" := List.mem_append_left _ (List.mem_cons.mpr (.inl (by decide +kernel)))
  have ends : ".slice".toList <:+ path.toList := by decide +kernel
  apply (candidate_recognised_iff valid candidate ⟨_, .past .here, same⟩).mpr
  exact ⟨ends, rfl, _, .past .here, same⟩

/-- The resolver finds a pod in the directory `pod<uid>`, and a scan never does. -/
theorem bare_pod_unrecognised :
    let path := "/sys/fs/cgroup/kubepods.slice/poda_9"
    let tree : Listing := .directory ⟨"poda_9", by decide +kernel⟩ (some 2) .done .done
    PodUID "a-9" ∧ path ∈ candidates "a-9" ∧ tree.Has path ∧ podResolve tree "a-9" = some [⟨2, path⟩] ∧
      ¬ Recognised tree "a-9" path := by
  intro path tree
  refine ⟨⟨by decide, by decide +kernel⟩, ?_, ?_, by decide +kernel, ?_⟩
  · exact List.mem_append_left _ (List.mem_cons_of_mem _ (List.mem_singleton.mpr (by decide +kernel)))
  · exact ⟨[⟨"poda_9", by decide +kernel⟩], .here, by decide +kernel⟩
  · rintro ⟨found, -⟩
    revert found
    decide +kernel

end QuotaManager
