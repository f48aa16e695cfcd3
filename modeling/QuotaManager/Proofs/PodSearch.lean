import QuotaManager.CgroupFs

/-! The search for pod directories. It finds each directory that has a pod's name and lies
below none that has one, as far as the listings on the way can be read, and finds it once. -/

namespace QuotaManager
open Paths

/-- A directory of a tree by the names down to it; only listings of one kind are entered. -/
inductive Listing.Lies (opened : Listing → Prop) : Listing → List Name → Prop where
  | here {name : Name} {inode : Option UInt64} {content rest : Listing} : Lies opened (.directory name inode content rest) [name]
  | inside {name : Name} {inode : Option UInt64} {content rest : Listing} {names : List Name} (enters : opened content)
    (lies : Lies opened content names) : Lies opened (.directory name inode content rest) (name :: names)
  | past {name : Name} {rest : Listing} {names : List Name} (lies : Lies opened rest names) : Lies opened (.file name rest) names
  | beside {name : Name} {inode : Option UInt64} {content rest : Listing} {names : List Name} (lies : Lies opened rest names) :
    Lies opened (.directory name inode content rest) names

theorem Listing.Lies.first {opened : Listing → Prop} {listing : Listing} {names : List Name} (lies : listing.Lies opened names) :
    ∃ first ∈ listing.names, ∃ more, names = first :: more := by
  induction lies with
  | here | inside => exact ⟨_, List.mem_cons_self, _, rfl⟩
  | past _ ih | beside _ ih =>
    obtain ⟨first, member, more, rfl⟩ := ih
    exact ⟨first, List.mem_cons_of_mem _ member, more, rfl⟩

theorem Listing.Lies.nonempty {opened : Listing → Prop} {listing : Listing} {names : List Name}
    (lies : listing.Lies opened names) : names ≠ [] := by
  obtain ⟨first, -, more, rfl⟩ := lies.first
  exact List.cons_ne_nil first more

/-- A directory with a pod's name, below directories with none, that readable listings
lead to. -/
structure Listing.Outermost (listing : Listing) (above : List Name) (own : Name) : Prop where
  lies : listing.Lies (fun content => content.complete = true) (above ++ [own])
  bare : ∀ name ∈ above, podIDFromCgroupPath name.text = none
  marked : (podIDFromCgroupPath own.text).isSome

namespace Listing
variable {listing : Listing} {above : List Name} {own : Name}

theorem Outermost.directory_iff {name : Name} {inode : Option UInt64} {content rest : Listing} :
    (directory name inode content rest).Outermost above own ↔
      ((podIDFromCgroupPath name.text).isSome ∧ above = [] ∧ own = name) ∨
      (podIDFromCgroupPath name.text = none ∧ content.complete ∧ ∃ higher, above = name :: higher ∧ content.Outermost higher own) ∨
      rest.Outermost above own := by
  constructor
  · rintro ⟨lies, bare, marked⟩
    generalize shape : above ++ [own] = down at lies
    cases lies with
    | here =>
      left
      cases above with
      | nil =>
        obtain ⟨rfl, -⟩ := List.cons.inj shape
        exact ⟨marked, rfl, rfl⟩
      | cons _ higher => exact absurd (List.append_eq_nil_iff.mp (List.cons.inj shape).2).2 (List.cons_ne_nil own [])
    | inside readable lies =>
      right
      left
      cases above with
      | nil =>
        obtain ⟨-, rfl⟩ := List.cons.inj shape
        exact absurd rfl lies.nonempty
      | cons first higher =>
        obtain ⟨rfl, rfl⟩ := List.cons.inj shape
        exact ⟨bare first List.mem_cons_self, readable, higher, rfl, lies,
          fun other member => bare other (List.mem_cons_of_mem _ member), marked⟩
    | beside lies =>
      right
      right
      subst shape
      exact ⟨lies, bare, marked⟩
  · rintro (⟨marked, rfl, rfl⟩ | ⟨unmarked, readable, higher, rfl, lies, bare, marked⟩ | ⟨lies, bare, marked⟩)
    · exact ⟨.here, fun _ impossible => absurd impossible List.not_mem_nil, marked⟩
    · refine ⟨.inside readable lies, ?_, marked⟩
      intro other member
      rcases List.mem_cons.mp member with rfl | higher
      · exact unmarked
      · exact bare other higher
    · exact ⟨.beside lies, bare, marked⟩

/-- The search returns the directories with a pod's name below directories with none. -/
theorem mem_podCgroupDirs {root path : String} : path ∈ (listing.podCgroupDirs root).map (·.path) ↔
    ∃ above own, listing.Outermost above own ∧ path = join (root :: (above ++ [own]).map Name.text) := by
  induction listing generalizing root with
  | done | failed =>
    constructor
    · intro impossible
      cases impossible
    · rintro ⟨above, own, ⟨lies, -, -⟩, -⟩
      cases lies
  | file name rest ih =>
    rw [podCgroupDirs, ih]
    constructor
    · rintro ⟨above, own, ⟨lies, bare, marked⟩, located⟩
      exact ⟨above, own, ⟨.past lies, bare, marked⟩, located⟩
    · rintro ⟨above, own, ⟨lies, bare, marked⟩, located⟩
      cases lies with
      | past lies => exact ⟨above, own, ⟨lies, bare, marked⟩, located⟩
  | directory name inode content rest inside later =>
    have deeper (higher : List Name) (own : Name) : join (join [root, name.text] :: (higher ++ [own]).map Name.text) =
        join (root :: (name :: higher ++ [own]).map Name.text) :=
      join_join (List.cons_ne_nil name []) (List.append_ne_nil_of_right_ne_nil higher (List.cons_ne_nil own []))
    rw [podCgroupDirs, List.map_append, List.mem_append, later]
    simp only [Outermost.directory_iff]
    constructor
    · rintro (found | ⟨above, own, outermost, located⟩)
      · cases marked : podIDFromCgroupPath name.text with
        | some uid =>
          rw [if_pos (by rw [marked]; rfl), List.map_singleton, List.mem_singleton] at found
          exact ⟨[], name, .inl ⟨rfl, rfl, rfl⟩, found⟩
        | none =>
          rw [if_neg (by rw [marked]; exact Bool.false_ne_true)] at found
          split at found
          next readable =>
            obtain ⟨higher, own, outermost, located⟩ := inside.mp found
            exact ⟨name :: higher, own, .inr (.inl ⟨rfl, readable, higher, rfl, outermost⟩), located.trans (deeper higher own)⟩
          · cases found
      · exact ⟨above, own, .inr (.inr outermost), located⟩
    · rintro ⟨above, own, ⟨marked, rfl, rfl⟩ | ⟨unmarked, readable, higher, rfl, outermost⟩ | outermost, located⟩
      · left
        rw [if_pos marked, List.map_singleton, List.mem_singleton]
        exact located
      · left
        rw [if_neg (by rw [unmarked]; exact Bool.false_ne_true), if_pos readable]
        exact inside.mpr ⟨higher, own, outermost, located.trans (deeper higher own).symm⟩
      · exact .inr ⟨above, own, outermost, located⟩

theorem podCgroupDirs_nodup (distinct : listing.distinct) (root : String) : ((listing.podCgroupDirs root).map (·.path)).Nodup := by
  induction listing generalizing root with
  | done | failed => exact List.nodup_nil
  | file name rest ih =>
    simp only [Listing.distinct, decide_eq_true_eq] at distinct
    exact ih distinct.2 root
  | directory name inode content rest inside later =>
    simp only [Listing.distinct, decide_eq_true_eq] at distinct
    obtain ⟨fresh, below, beside⟩ := distinct
    rw [podCgroupDirs, List.map_append]
    apply List.Nodup.append _ (later beside root)
    · -- the first name below the root tells the directory from those beside it
      intro path found again
      have single : path ∈ ((directory name inode content .done).podCgroupDirs root).map (·.path) := by
        rw [podCgroupDirs, List.map_append]
        exact List.mem_append_left _ found
      obtain ⟨above, own, outermost, located⟩ := mem_podCgroupDirs.mp single
      obtain ⟨higher, other, reached, same⟩ := mem_podCgroupDirs.mp again
      obtain ⟨first, here, more, shape⟩ := outermost.lies.first
      obtain ⟨second, there, _, form⟩ := reached.lies.first
      have names := join_inj outermost.lies.nonempty reached.lies.nonempty (located.symm.trans same)
      rw [shape, form] at names
      obtain ⟨rfl, -⟩ := List.cons.inj names
      obtain rfl := List.mem_singleton.mp here
      exact fresh there
    · split
      · exact List.nodup_singleton _
      · split
        · exact inside below _
        · exact List.nodup_nil

/-- No outermost directory is above another one. -/
theorem Outermost.apart {higher more : List Name} {other : Name} (outer : listing.Outermost above own)
    (inner : listing.Outermost higher other) (further : more ≠ []) : higher ++ [other] ≠ above ++ [own] ++ more := by
  intro shape
  rw [← List.dropLast_concat_getLast further, ← List.append_assoc] at shape
  have upper : higher = above ++ [own] ++ more.dropLast := (List.append_inj' shape rfl).1
  have bare := inner.bare own (by rw [upper]; simp)
  have marked := outer.marked
  rw [bare] at marked
  cases marked

end Listing

theorem mem_findPodCgroupDirs {root path : String} {tree : Listing} : path ∈ findPodCgroupDirs root tree ↔
    tree.complete ∧ ∃ above own, tree.Outermost above own ∧ path = join (root :: (above ++ [own]).map Name.text) := by
  rw [findPodCgroupDirs, Listing.podDirs]
  split
  next readable => rw [Listing.mem_podCgroupDirs, and_iff_right readable]
  next unreadable => exact iff_of_false List.not_mem_nil fun found => unreadable found.1

/-- The search finds exactly the outermost pod directories that can be reached, each of
them once, and none inside of another. -/
theorem findPodCgroupDirs_outermost (root : String) (tree : DirectoryTree) :
    (findPodCgroupDirs root tree.content).Nodup ∧
    (∀ path, path ∈ findPodCgroupDirs root tree.content ↔ tree.content.complete ∧
      ∃ above own, tree.content.Outermost above own ∧ path = join (root :: (above ++ [own]).map Name.text)) ∧
    ∀ outer ∈ findPodCgroupDirs root tree.content, ∀ inner ∈ findPodCgroupDirs root tree.content,
      ¬ outer.toList ++ ['/'] <+: inner.toList := by
  refine ⟨?_, fun path => mem_findPodCgroupDirs, ?_⟩
  · rw [findPodCgroupDirs, Listing.podDirs]
    split
    · exact Listing.podCgroupDirs_nodup tree.distinct root
    · exact List.nodup_nil
  · intro outer found inner also inside
    obtain ⟨-, above, own, outermost, rfl⟩ := mem_findPodCgroupDirs.mp found
    obtain ⟨-, higher, other, reached, rfl⟩ := mem_findPodCgroupDirs.mp also
    obtain ⟨more, further, shape⟩ := join_inside outermost.lies.nonempty reached.lies.nonempty inside
    exact outermost.apart reached further shape

/-- A pod directory with another one inside, beside a directory whose listing fails. -/
def nestedPods : DirectoryTree where
  content := .directory ⟨"burstable", by decide⟩ none
    (.file ⟨"cpu.max", by decide⟩ (.directory ⟨"a-pod1.slice", by decide⟩ none
      (.directory ⟨"b-pod2", by decide⟩ none .done .done) .done))
    (.directory ⟨"besteffort", by decide⟩ none (.directory ⟨"c-pod3", by decide⟩ none .done .failed) .done)
  distinct := by decide +kernel

/-- The inner pod is left to the outer one, and nothing is found where a listing fails. -/
theorem findPodCgroupDirs_outermost_nested :
    findPodCgroupDirs "/r" nestedPods.content = ["/r/burstable/a-pod1.slice"] ∧
      ∀ path, path ∈ findPodCgroupDirs "/r" nestedPods.content ↔ nestedPods.content.complete ∧
        ∃ above own, nestedPods.content.Outermost above own ∧ path = join ("/r" :: (above ++ [own]).map Name.text) :=
  ⟨by decide +kernel, (findPodCgroupDirs_outermost "/r" nestedPods).2.1⟩

end QuotaManager
