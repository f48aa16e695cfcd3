import Mathlib.Data.List.Basic

/-! Slash-separated paths with the operations of `path/filepath`, and absolute paths by
their names. -/

namespace Paths

/-- One element of a path, on top of those that are kept. -/
def cleanElement (rooted : Bool) (kept : List (List Char)) (element : List Char) : List (List Char) :=
  if element = [] ∨ element = ['.'] then kept
  else if element = ['.', '.'] then
    match kept with
    | [] => if rooted then [] else [element]
    | last :: rest => if last = ['.', '.'] then element :: kept else rest
  else element :: kept

/-- `filepath.Clean`. -/
def clean (path : String) : String :=
  let text := path.toList
  let rooted : Bool := text.head? = some '/'
  let kept := ((text.splitOn '/').foldl (cleanElement rooted) []).reverse
  let joined := ['/'].intercalate kept
  String.ofList (if rooted then '/' :: joined else if kept = [] then ['.'] else joined)

/-- `filepath.Join`: empty elements at the front are dropped. -/
def join (elements : List String) : String :=
  match elements.dropWhile (· = "") with
  | [] => ""
  | kept => clean (String.ofList (['/'].intercalate (kept.map String.toList)))

/-- `filepath.Base`. -/
def base (path : String) : String :=
  if path = "" then "."
  else
    let last := ((path.toList.reverse.dropWhile (· = '/')).takeWhile (· ≠ '/')).reverse
    if last = [] then "/" else String.ofList last

/-- The name of a directory entry. -/
structure Name where
  text : String
  proper : text ≠ "" ∧ text ≠ "." ∧ text ≠ ".." ∧ '/' ∉ text.toList
  deriving DecidableEq

def absolute (names : List Name) : String := String.ofList (names.flatMap fun name => '/' :: name.text.toList)

theorem absolute_last (names : List Name) (name : Name) :
    (absolute (names ++ [name])).toList = (absolute names).toList ++ '/' :: name.text.toList := by
  simp [absolute]

theorem Name.nonempty (name : Name) : name.text.toList ≠ [] := by
  intro empty
  exact name.proper.1 (String.toList_inj.mp (empty.trans String.toList_empty.symm))

/-- Names by their letters. -/
def letters (names : List Name) : List (List Char) := names.map fun name => name.text.toList

theorem letters_append (names more : List Name) : letters (names ++ more) = letters names ++ letters more := List.map_append

theorem letters_inj {names others : List Name} (same : letters names = letters others) : names = others := by
  refine List.map_injective_iff.mpr ?_ same
  intro one two equal
  cases one
  cases two
  congr
  exact String.toList_inj.mp equal

theorem slashless {names : List Name} : ∀ element ∈ letters names, '/' ∉ element := by
  intro element member
  obtain ⟨name, -, rfl⟩ := List.mem_map.mp member
  exact name.proper.2.2.2

theorem intercalate_cons (first : List Char) (others : List (List Char)) :
    ['/'].intercalate (first :: others) = first ++ others.flatMap ('/' :: ·) := by
  induction others generalizing first with
  | nil => simp
  | cons second others ih => rw [List.intercalate_cons_cons, ih, List.flatMap_cons]; simp

/-- Names below a path are elements of their own. -/
theorem split_below (path : List Char) (names : List Name) :
    (path ++ (letters names).flatMap ('/' :: ·)).splitOn '/' = path.splitOn '/' ++ letters names := by
  induction names generalizing path with
  | nil => rw [letters, List.map_nil, List.flatMap_nil, List.append_nil, List.append_nil]
  | cons name names ih =>
    have first : name.text.toList.splitOn '/' = [name.text.toList] := List.splitOn_eq_singleton name.proper.2.2.2
    rw [letters, List.map_cons, List.flatMap_cons, List.cons_append, List.splitOn_append_cons_self, ← letters, ih, first]
    rfl

theorem absolute_toList (names : List Name) : (absolute names).toList = (letters names).flatMap ('/' :: ·) := by
  rw [absolute, String.toList_ofList, letters, List.flatMap_map]

theorem split_absolute (names : List Name) : (absolute names).toList.splitOn '/' = [] :: letters names := by
  rw [absolute_toList]
  exact split_below [] names

theorem absolute_inj {names others : List Name} (same : absolute names = absolute others) : names = others := by
  have elements := congrArg (fun path : String => path.toList.splitOn '/') same
  simp only [split_absolute] at elements
  exact letters_inj (List.cons.inj elements).2

theorem cleanElement_name (rooted : Bool) (kept : List (List Char)) (name : Name) :
    cleanElement rooted kept name.text.toList = name.text.toList :: kept := by
  obtain ⟨filled, here, up, -⟩ := name.proper
  have different {text : String} (other : name.text ≠ text) : name.text.toList ≠ text.toList :=
    fun same => other (String.toList_inj.mp same)
  have first : ¬ (name.text.toList = [] ∨ name.text.toList = ['.']) := by
    rintro (empty | dot)
    · exact name.nonempty empty
    · exact different here dot
  have second : name.text.toList ≠ ['.', '.'] := different up
  unfold cleanElement
  rw [if_neg first, if_neg second]

theorem clean_names (rooted : Bool) (kept : List (List Char)) (names : List Name) :
    (letters names).foldl (cleanElement rooted) kept = (letters names).reverse ++ kept := by
  induction names generalizing kept with
  | nil => rfl
  | cons name names ih =>
    rw [letters, List.map_cons, List.foldl_cons, cleanElement_name, ← letters, ih, List.reverse_cons, List.append_assoc]
    rfl

/-- Whether a path begins at the root. -/
def rooted (path : String) : Bool := path.toList.head? = some '/'

/-- What `clean` keeps of a path. -/
def elements (path : String) : List (List Char) :=
  ((path.toList.splitOn '/').foldl (cleanElement (rooted path)) []).reverse

/-- The path of the elements that are kept. -/
def render (rooted : Bool) (elements : List (List Char)) : String :=
  let joined := ['/'].intercalate elements
  String.ofList (if rooted then '/' :: joined else if elements = [] then ['.'] else joined)

theorem clean_eq (path : String) : clean path = render (rooted path) (elements path) := rfl

theorem join_empty (others : List String) : join ("" :: others) = join others := by
  rw [join, join, List.dropWhile_cons_of_pos (by decide)]

theorem join_filled {first : String} (filled : first ≠ "") (others : List String) :
    join (first :: others) = clean (String.ofList (first.toList ++ (others.map String.toList).flatMap ('/' :: ·))) := by
  rw [join, List.dropWhile_cons_of_neg (by simpa using filled)]
  dsimp only
  rw [List.map_cons, intercalate_cons]

/-- Joining puts names below a path. -/
theorem join_names (root : String) {names : List Name} (something : names ≠ []) :
    join (root :: names.map Name.text) = render (rooted root) (elements root ++ letters names) := by
  have below (text : List Char) (more : List Name) :
      (text ++ ((more.map Name.text).map String.toList).flatMap ('/' :: ·)).splitOn '/' = text.splitOn '/' ++ letters more := by
    rw [List.map_map]
    exact split_below text more
  by_cases empty : root = ""
  · obtain ⟨name, more, rfl⟩ := List.exists_cons_of_ne_nil something
    have single : name.text.toList.splitOn '/' = [name.text.toList] := List.splitOn_eq_singleton name.proper.2.2.2
    obtain ⟨letter, rest, shape⟩ := List.exists_cons_of_ne_nil name.nonempty
    have other : letter ≠ '/' := by
      rintro rfl
      exact name.proper.2.2.2 (shape ▸ List.mem_cons_self)
    have relative : rooted (String.ofList (name.text.toList ++ ((more.map Name.text).map String.toList).flatMap ('/' :: ·))) = false := by
      rw [rooted, String.toList_ofList, shape]
      simpa using other
    rw [empty, join_empty, List.map_cons, join_filled name.proper.1, clean_eq, relative, elements, relative, String.toList_ofList,
      below, single, List.singleton_append]
    rw [show name.text.toList :: letters more = letters (name :: more) from rfl, clean_names, List.append_nil, List.reverse_reverse]
    rfl
  · have same : rooted (String.ofList (root.toList ++ ((names.map Name.text).map String.toList).flatMap ('/' :: ·))) = rooted root := by
      obtain ⟨letter, rest, shape⟩ := List.exists_cons_of_ne_nil fun none => empty (String.toList_inj.mp (none.trans String.toList_empty.symm))
      rw [rooted, rooted, String.toList_ofList, shape]
      rfl
    rw [join_filled empty, clean_eq, same, elements, same, String.toList_ofList, below, List.foldl_append, clean_names,
      List.reverse_append, List.reverse_reverse]
    rfl

/-- Elements that cleaning leaves as they are, the last one first. -/
structure Kept (rooted : Bool) (kept : List (List Char)) : Prop where
  fixed : kept.reverse.foldl (cleanElement rooted) [] = kept
  plain : ∀ element ∈ kept, element ≠ [] ∧ element ≠ ['.'] ∧ '/' ∉ element

namespace Kept
variable {rooted : Bool} {kept : List (List Char)} {element : List Char}

theorem push (before : Kept rooted kept) (pushed : cleanElement rooted kept element = element :: kept)
    (plain : element ≠ [] ∧ element ≠ ['.'] ∧ '/' ∉ element) : Kept rooted (element :: kept) := by
  refine ⟨?_, ?_⟩
  · rw [List.reverse_cons, List.foldl_append, before.fixed]
    exact pushed
  · intro other member
    rcases List.mem_cons.mp member with rfl | inside
    · exact plain
    · exact before.plain other inside

theorem pop (before : Kept rooted (element :: kept)) (down : element ≠ ['.', '.']) : Kept rooted kept := by
  refine ⟨?_, fun other member => before.plain other (List.mem_cons_of_mem _ member)⟩
  obtain ⟨filled, dotless, -⟩ := before.plain element List.mem_cons_self
  have whole := before.fixed
  rw [List.reverse_cons, List.foldl_append, List.foldl_cons, List.foldl_nil] at whole
  unfold cleanElement at whole
  rw [if_neg (not_or.mpr ⟨filled, dotless⟩), if_neg down] at whole
  exact (List.cons.inj whole).2

/-- Each element of a path leaves what is kept in order. -/
theorem clean (before : Kept rooted kept) (single : '/' ∉ element) : Kept rooted (cleanElement rooted kept element) := by
  unfold cleanElement
  split
  · exact before
  next filled =>
    obtain ⟨filled, dotless⟩ := not_or.mp filled
    split
    next up =>
      cases kept with
      | nil =>
        cases rooted with
        | true => exact before
        | false => exact before.push (by rw [up]; rfl) ⟨filled, dotless, single⟩
      | cons last rest =>
        dsimp only
        split
        next again =>
          refine before.push ?_ ⟨filled, dotless, single⟩
          unfold cleanElement
          rw [if_neg (not_or.mpr ⟨filled, dotless⟩), if_pos up]
          exact if_pos again
        next down => exact before.pop down
    next down =>
      refine before.push ?_ ⟨filled, dotless, single⟩
      unfold cleanElement
      rw [if_neg (not_or.mpr ⟨filled, dotless⟩), if_neg down]

theorem foldl (before : Kept rooted kept) {list : List (List Char)} (single : ∀ element ∈ list, '/' ∉ element) :
    Kept rooted (list.foldl (cleanElement rooted) kept) := by
  induction list generalizing kept with
  | nil => exact before
  | cons element rest ih =>
    exact ih (before.clean (single element List.mem_cons_self)) fun other member => single other (List.mem_cons_of_mem _ member)

theorem nil (rooted : Bool) : Kept rooted [] := ⟨rfl, fun _ impossible => absurd impossible List.not_mem_nil⟩

variable {elements : List (List Char)} (ordered : Kept rooted elements.reverse) (something : elements ≠ [])
include ordered something

/-- The path of the elements has them between its slashes. -/
theorem split : (render rooted elements).toList.splitOn '/' = (if rooted then [[]] else []) ++ elements := by
  have joined : (['/'].intercalate elements).splitOn '/' = elements :=
    List.splitOn_intercalate '/' (fun element member => (ordered.plain element (List.mem_reverse.mpr member)).2.2) something
  cases rooted with
  | true =>
    have first := List.splitOn_append_cons_self [] (['/'].intercalate elements) (a := '/')
    rw [List.nil_append, joined] at first
    rw [render]
    simp only [↓reduceIte, String.toList_ofList]
    exact first
  | false =>
    rw [render]
    simp only [Bool.false_eq_true, ↓reduceIte, if_neg something, String.toList_ofList]
    exact joined

theorem rooted_render : Paths.rooted (render rooted elements) = rooted := by
  cases rooted with
  | true =>
    rw [Paths.rooted, render]
    simp only [↓reduceIte, String.toList_ofList, List.head?_cons, decide_true]
  | false =>
    obtain ⟨first, rest, rfl⟩ := List.exists_cons_of_ne_nil something
    obtain ⟨filled, -, single⟩ := ordered.plain first (List.mem_reverse.mpr List.mem_cons_self)
    obtain ⟨letter, others, rfl⟩ := List.exists_cons_of_ne_nil filled
    have other : letter ≠ '/' := by
      rintro rfl
      exact single List.mem_cons_self
    rw [Paths.rooted, render]
    simp only [Bool.false_eq_true, ↓reduceIte, if_neg something, String.toList_ofList, intercalate_cons, List.cons_append,
      List.head?_cons, Option.some.injEq, other, decide_false]

theorem elements_render : Paths.elements (render rooted elements) = elements := by
  have skipped : (if rooted then [[]] else []).foldl (cleanElement rooted) [] = [] := by
    cases rooted <;> rfl
  have fixed := ordered.fixed
  rw [List.reverse_reverse] at fixed
  rw [Paths.elements, ordered.rooted_render something, ordered.split something, List.foldl_append, skipped, fixed,
    List.reverse_reverse]

end Kept

theorem single_split (text : List Char) : ∀ element ∈ text.splitOn '/', '/' ∉ element := by
  induction text with
  | nil =>
    intro element member
    rw [List.splitOn_nil, List.mem_singleton] at member
    exact member ▸ List.not_mem_nil
  | cons letter rest ih =>
    intro element member
    rw [List.splitOn_cons_eq_if_modifyHead] at member
    split at member
    · rcases List.mem_cons.mp member with rfl | later
      · exact List.not_mem_nil
      · exact ih element later
    next other =>
      obtain ⟨first, more, shape⟩ := List.exists_cons_of_ne_nil (List.splitOn_ne_nil '/' rest)
      rw [shape] at ih member
      rcases List.mem_cons.mp member with rfl | later
      · refine List.not_mem_cons_of_ne_of_not_mem ?_ (ih first List.mem_cons_self)
        rintro rfl
        exact other (beq_self_eq_true '/')
      · exact ih element (List.mem_cons_of_mem _ later)

theorem kept_below (root : String) (names : List Name) : Kept (rooted root) (elements root ++ letters names).reverse := by
  rw [List.reverse_append, elements, List.reverse_reverse, ← clean_names]
  exact ((Kept.nil _).foldl (single_split root.toList)).foldl slashless

section below
variable {root : String} {names others more : List Name}

variable (root) in
theorem join_something (something : names ≠ []) : elements root ++ letters names ≠ [] :=
  fun empty => something (List.map_eq_nil_iff.mp (List.append_eq_nil_iff.mp empty).2)

theorem join_split (something : names ≠ []) : (join (root :: names.map Name.text)).toList.splitOn '/' =
    (if rooted root then [[]] else []) ++ (elements root ++ letters names) := by
  rw [join_names root something]
  exact (kept_below root names).split (join_something root something)

/-- What is below a joined path is below the root. -/
theorem join_join (something : names ≠ []) (further : more ≠ []) :
    join (join (root :: names.map Name.text) :: more.map Name.text) = join (root :: (names ++ more).map Name.text) := by
  have filled := join_something root something
  rw [join_names _ further, join_names root something, (kept_below root names).rooted_render filled,
    (kept_below root names).elements_render filled, join_names root (List.append_ne_nil_of_left_ne_nil something more),
    letters_append, List.append_assoc]

theorem join_inj (something : names ≠ []) (also : others ≠ [])
    (same : join (root :: names.map Name.text) = join (root :: others.map Name.text)) : names = others := by
  have split := congrArg (fun path : String => path.toList.splitOn '/') same
  simp only [join_split something, join_split also] at split
  exact letters_inj (List.append_cancel_left (List.append_cancel_left split))

/-- A path that goes on after a slash is below. -/
theorem join_inside (something : names ≠ []) (also : others ≠ [])
    (inside : (join (root :: names.map Name.text)).toList ++ ['/'] <+: (join (root :: others.map Name.text)).toList) :
    ∃ more ≠ [], others = names ++ more := by
  obtain ⟨rest, shape⟩ := inside
  have split := congrArg (List.splitOn '/') shape
  rw [List.append_assoc, List.singleton_append, List.splitOn_append_cons_self, join_split something, join_split also,
    List.append_assoc, List.append_assoc] at split
  have further := List.append_cancel_left (List.append_cancel_left split)
  obtain ⟨above, more, rfl, first, second⟩ := List.map_eq_append_iff.mp further.symm
  obtain rfl := letters_inj first
  refine ⟨more, ?_, rfl⟩
  rintro rfl
  exact List.splitOn_ne_nil '/' rest second.symm

end below

/-- Joining puts names below an absolute path. -/
theorem join_absolute {names more : List Name} (something : names ≠ []) (further : more ≠ []) :
    join (absolute names :: more.map Name.text) = absolute (names ++ more) := by
  obtain ⟨first, others, rfl⟩ := List.exists_cons_of_ne_nil something
  have skipped : cleanElement true [] [] = [] := rfl
  have root : rooted (absolute (first :: others)) = true := by
    rw [rooted, absolute_toList]
    rfl
  have elements : elements (absolute (first :: others)) = letters (first :: others) := by
    rw [elements, root, split_absolute, List.foldl_cons, skipped, clean_names, List.append_nil, List.reverse_reverse]
  apply String.toList_inj.mp
  rw [join_names _ further, root, elements, ← letters_append, absolute_toList, render]
  simp only [↓reduceIte, String.toList_ofList]
  rw [List.cons_append, letters, List.map_cons, intercalate_cons]
  rfl

/-- The base of a path is what follows its last slash. -/
theorem base_split {path : String} {name : Name} (back : List Char)
    (split : path.toList.reverse = name.text.toList.reverse ++ back) (slash : ∀ letter ∈ back.head?, letter = '/') :
    base path = name.text := by
  have nonempty := name.nonempty
  have letters : ∀ letter ∈ name.text.toList.reverse, decide (letter ≠ '/') = true := by
    rintro letter member
    apply decide_eq_true
    rintro rfl
    exact name.proper.2.2.2 (List.mem_reverse.mp member)
  have stops : back.takeWhile (· ≠ '/') = [] := by
    cases back with
    | nil => rfl
    | cons letter rest => exact List.takeWhile_cons_of_neg (by simpa using slash letter rfl)
  have last : (path.toList.reverse.dropWhile (· = '/')).takeWhile (· ≠ '/') = name.text.toList.reverse := by
    obtain ⟨letter, rest, shape⟩ := List.exists_cons_of_ne_nil (List.reverse_ne_nil_iff.mpr nonempty)
    have first : ¬ (decide (letter = '/') = true) := by
      have := letters letter (shape ▸ List.mem_cons_self)
      simpa using this
    rw [split, shape, List.cons_append, List.dropWhile_cons_of_neg (p := fun letter : Char => decide (letter = '/')) first,
      ← List.cons_append, ← shape, List.takeWhile_append_of_pos letters, stops, List.append_nil]
  have filled : path ≠ "" := by
    rintro rfl
    exact nonempty (List.reverse_eq_nil_iff.mp (List.append_eq_nil_iff.mp split.symm).1)
  rw [base, if_neg filled]
  simp only [last, List.reverse_reverse, if_neg nonempty, String.ofList_toList]

theorem base_name (name : Name) : base name.text = name.text := by
  apply base_split []
  · rw [List.append_nil]
  · intro letter impossible
    cases impossible

theorem base_absolute (names : List Name) (name : Name) : base (absolute (names ++ [name])) = name.text := by
  apply base_split ('/' :: (absolute names).toList.reverse)
  · rw [absolute_last, List.reverse_append, List.reverse_cons, List.append_assoc]
    rfl
  · rintro letter first
    exact (Option.some.inj first).symm

end Paths
