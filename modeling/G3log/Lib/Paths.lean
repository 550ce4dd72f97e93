import Mathlib.Data.List.Infix
import Mathlib.Data.List.Basic
import Mathlib.Data.List.DropRight

/-!
# Paths in a tree of directories

A path is a list of characters. Its names stand between slashes, empty ones do not
count, and it begins at the root or at a directory that is given. What a directory has
under a name is a parameter, so a name may lead up or anywhere else; only a single dot
stays. A path names a place: a directory and a name in it. A symbolic link is a place
that holds a path, which begins at the directory of the link.

## Main definitions

* `trim` -- a path without the slashes at its end.
* `DirTree` -- the directories, by what a name leads to.
* `DirTree.place` -- the place a path names.
* `DirTree.Leads` -- a link leads to the place that a path names.
* `moves` -- the names of a path but single dots.
* `lexical` -- the tree in which a directory is the list of names above it.
* `spelled` -- the tree in which a directory is the way to it.
-/

namespace G3log.Paths

/-- The names of a path. -/
def components (path : List Char) : List (List Char) := (path.splitOn '/').filter (· ≠ [])

def isAbsolute (path : List Char) : Bool := path.head? == some '/'

theorem components_append (front back : List Char) :
    components (front ++ '/' :: back) = components front ++ components back := by
  rw [components, List.splitOn_append_cons_self, List.filter_append]
  rfl

/-- A text without a slash is one name. -/
theorem components_name {name : List Char} (hslash : '/' ∉ name) (hne : name ≠ []) :
    components name = [name] := by
  rw [components, List.splitOn_eq_singleton hslash]
  simp [hne]

theorem isAbsolute_append {dir : List Char} (h : dir ≠ []) (rest : List Char) :
    isAbsolute (dir ++ rest) = isAbsolute dir := by
  cases dir with
  | nil => exact absurd rfl h
  | cons c dir => rfl

theorem isAbsolute_name {name : List Char} (hslash : '/' ∉ name) : isAbsolute name = false := by
  cases name with
  | nil => rfl
  | cons c name =>
      have hc : c ≠ '/' := by
        intro heq
        simp [heq] at hslash
      simp [isAbsolute, hc]

section
variable {α : Type*} {p : α → Bool} {l : List α}

/-- What is left when an end is dropped does not end with what was dropped. -/
theorem getLast?_rdropWhile : ∀ a ∈ (l.rdropWhile p).getLast?, p a = false := by
  intro a ha
  have hne : l.rdropWhile p ≠ [] := by
    intro hnil
    simp [hnil] at ha
  rw [List.getLast?_eq_some_getLast hne, Option.mem_some_iff] at ha
  simpa [ha] using List.rdropWhile_last_not p l hne

theorem rdropWhile_eq_self (h : ∀ a ∈ l.getLast?, p a = false) : l.rdropWhile p = l := by
  rw [List.rdropWhile_eq_self_iff]
  intro hne
  simp [h _ (List.getLast?_eq_some_getLast hne)]

theorem rdropWhile_append (rest : List α) (h : ∀ a ∈ rest, p a = true) :
    (l ++ rest).rdropWhile p = l.rdropWhile p := by
  rw [List.rdropWhile, List.rdropWhile, List.reverse_append,
    List.dropWhile_append_of_pos (by simpa using h)]

end

/-- A path without the slashes at its end. -/
def trim (path : List Char) : List Char := path.rdropWhile (· == '/')

theorem trim_eq_nil_iff (path : List Char) : trim path = [] ↔ ∀ c ∈ path, c = '/' := by
  simp [trim, List.rdropWhile_eq_nil_iff]

theorem trim_append_slashes (path : List Char) (k : ℕ) :
    trim (path ++ List.replicate k '/') = trim path := by
  apply rdropWhile_append
  intro c hc
  simp [List.eq_of_mem_replicate hc]

/-- What the trim drops are slashes. -/
theorem exists_slashes (path : List Char) : ∃ k, path = trim path ++ List.replicate k '/' := by
  have hslash : ∀ c ∈ path.rtakeWhile (· == '/'), c = '/' := by
    intro c hc
    simpa using List.mem_rtakeWhile_imp hc
  refine ⟨(path.rtakeWhile (· == '/')).length, ?_⟩
  rw [← List.eq_replicate_of_mem hslash, trim, List.rdropWhile_append_rtakeWhile]

theorem components_append_slashes (path : List Char) (k : ℕ) :
    components (path ++ List.replicate k '/') = components path := by
  have hnil : components [] = [] := by simp [components, List.splitOn_nil]
  induction k with
  | zero => simp
  | succ k ih =>
      rw [List.replicate_succ', ← List.append_assoc, components_append, hnil, ih,
        List.append_nil]

theorem components_trim (path : List Char) : components (trim path) = components path := by
  obtain ⟨k, hk⟩ := exists_slashes path
  calc components (trim path) = components (trim path ++ List.replicate k '/') :=
        (components_append_slashes _ k).symm
    _ = components path := by rw [← hk]

theorem isAbsolute_trim {path : List Char} (h : trim path ≠ []) :
    isAbsolute (trim path) = isAbsolute path := by
  obtain ⟨k, hk⟩ := exists_slashes path
  calc isAbsolute (trim path) = isAbsolute (trim path ++ List.replicate k '/') :=
        (isAbsolute_append h _).symm
    _ = isAbsolute path := by rw [← hk]

/-- The characters of a path that are not slashes are those of its names. -/
theorem flatten_components (path : List Char) :
    (components path).flatten = path.filter (· ≠ '/') := by
  rw [components, List.flatten_filter_ne_nil, List.splitOn]
  induction path with
  | nil => rfl
  | cons c path ih =>
      rw [List.splitOnP_cons_eq_if_modifyHead]
      by_cases hc : c = '/'
      · simpa [hc] using ih
      · have hne := List.splitOnP_ne_nil (· == '/') path
        cases hsplit : path.splitOnP (· == '/') with
        | nil => exact absurd hsplit hne
        | cons name names =>
            rw [hsplit] at ih
            simpa [hc] using ih

/-- The names of a path but single dots, which lead nowhere. -/
def moves (path : List Char) : List (List Char) := (components path).filter (· ≠ ['.'])

/-- The characters of a path but slashes and dots. -/
theorem flatten_moves (path : List Char) :
    (moves path).flatten.filter (· ≠ '.') = path.filter fun c => c ≠ '/' ∧ c ≠ '.' := by
  have hdots (names : List (List Char)) : (names.filter (· ≠ ['.'])).flatten.filter (· ≠ '.') =
      names.flatten.filter (· ≠ '.') := by
    induction names with
    | nil => rfl
    | cons name names ih =>
        by_cases hname : name = ['.']
        · simpa [hname] using ih
        · simpa [hname] using ih
  rw [moves, hdots, flatten_components, List.filter_filter]
  simp [and_comm]

/-- A name behind a path, in the current directory if the path is empty. -/
def join (path name : List Char) : List Char := if path = [] then name else path ++ '/' :: name

/-- Directories, with what stands under a name in each. -/
structure DirTree (Node : Type) where
  root : Node
  enter : Node → List Char → Node
  enter_dot : ∀ dir, enter dir ['.'] = dir

namespace DirTree

variable {Node : Type} (tree : DirTree Node)

/-- Where a path begins that is read in a directory. -/
def origin (dir : Node) (path : List Char) : Node := if isAbsolute path then tree.root else dir

/-- The directory a path leads to. -/
def follow (dir : Node) (path : List Char) : Node :=
  (components path).foldl tree.enter (tree.origin dir path)

/-- The place a path names: the directory its last name stands in, and that name. -/
def place (dir : Node) (path : List Char) : Node × List Char :=
  ((components path).dropLast.foldl tree.enter (tree.origin dir path),
    (components path).getLastD [])

/-- A link at one path, holding another, leads to the place that a third one names. -/
def Leads (dir : Node) (link target path : List Char) : Prop :=
  tree.place (tree.place dir link).1 target = tree.place dir path

instance [DecidableEq Node] (dir : Node) (link target path : List Char) :
    Decidable (tree.Leads dir link target path) :=
  inferInstanceAs (Decidable (_ = _))

theorem place_name {name : List Char} (hslash : '/' ∉ name) (hne : name ≠ []) (dir : Node) :
    tree.place dir name = (dir, name) := by
  simp [place, origin, components_name hslash hne, isAbsolute_name hslash]

theorem follow_nil (dir : Node) : tree.follow dir [] = dir := by
  simp [follow, origin, components, isAbsolute, List.splitOn_nil]

theorem follow_trim {path : List Char} (h : trim path ≠ []) (dir : Node) :
    tree.follow dir (trim path) = tree.follow dir path := by
  rw [follow, follow, components_trim, origin, origin, isAbsolute_trim h]

/-- A name behind the path of a directory stands in that directory. -/
theorem place_join {name : List Char} (hslash : '/' ∉ name) (hne : name ≠ [])
    (path : List Char) (dir : Node) :
    tree.place dir (join path name) = (tree.follow dir path, name) := by
  by_cases hpath : path = []
  · subst hpath
    rw [follow_nil]
    exact tree.place_name hslash hne dir
  · have hcomponents : components (path ++ '/' :: name) = components path ++ [name] := by
      rw [components_append, components_name hslash hne]
    simp [join, hpath, place, follow, origin, hcomponents, isAbsolute_append hpath]

/-- A single dot in front of a name stays in the directory. -/
theorem place_dot {name : List Char} (hslash : '/' ∉ name) (hne : name ≠ []) (dir : Node) :
    tree.place dir ('.' :: '/' :: name) = (dir, name) := by
  have hdot : components ['.'] = [['.']] := components_name (by decide) (by decide)
  have hjoin := tree.place_join hslash hne ['.'] dir
  have hfollow : tree.follow dir ['.'] = dir := by
    rw [follow, hdot]
    simp [origin, isAbsolute, tree.enter_dot]
  rw [hfollow] at hjoin
  exact hjoin

theorem foldl_enter_filter (names : List (List Char)) (dir : Node) :
    (names.filter (· ≠ ['.'])).foldl tree.enter dir = names.foldl tree.enter dir := by
  induction names generalizing dir with
  | nil => rfl
  | cons name names ih =>
      by_cases hname : name = ['.']
      · simpa [hname, tree.enter_dot] using ih dir
      · simpa [hname] using ih (tree.enter dir name)

/-- A link beside the file it holds the path of. It leads to the place of a path when
the path of their directory, read twice, leads to the directory of that place. -/
theorem leads_join_iff {link name : List Char} (hlink : '/' ∉ link) (hlinkne : link ≠ [])
    (hname : '/' ∉ name) (hnamene : name ≠ []) {dir dir' : Node} {path other : List Char}
    (hother : tree.place dir other = (dir', name)) :
    tree.Leads dir (join path link) (join path name) other ↔
      tree.follow (tree.follow dir path) path = dir' := by
  rw [Leads, tree.place_join hlink hlinkne, tree.place_join hname hnamene, hother]
  simp

end DirTree

/-- Directories by the names above them. Two dots lead up, and stay at the root. -/
def lexical : DirTree (List (List Char)) where
  root := []
  enter := fun dir name =>
    if name = ['.'] then dir else if name = ['.', '.'] then dir.dropLast else dir ++ [name]
  enter_dot := by simp

/-- Names that are not dots go down. -/
theorem follow_lexical {path : List Char} (h : isAbsolute path = false)
    (hplain : ∀ name ∈ components path, name ≠ ['.'] ∧ name ≠ ['.', '.'])
    (dir : List (List Char)) : lexical.follow dir path = dir ++ components path := by
  rw [DirTree.follow, DirTree.origin, h]
  simp only [Bool.false_eq_true, if_false]
  generalize components path = names at hplain
  induction names generalizing dir with
  | nil => simp
  | cons name names ih =>
      have hname := hplain name (by simp)
      rw [List.foldl_cons, ih _ fun other hother => hplain other (by simp [hother])]
      simp [lexical, hname]

/-- Directories by the way to them: from the root or not, and the names but single dots. -/
def spelled : DirTree (Bool × List (List Char)) where
  root := (true, [])
  enter := fun dir name => if name = ['.'] then dir else (dir.1, dir.2 ++ [name])
  enter_dot := by simp

theorem follow_spelled (path : List Char) :
    spelled.follow (false, []) path = (isAbsolute path, moves path) := by
  have horigin : spelled.origin (false, []) path = (isAbsolute path, []) := by
    cases h : isAbsolute path <;> simp [DirTree.origin, h, spelled]
  have henter (names : List (List Char)) (dir : Bool × List (List Char)) :
      names.foldl spelled.enter dir = (dir.1, dir.2 ++ names.filter (· ≠ ['.'])) := by
    induction names generalizing dir with
    | nil => simp
    | cons name names ih =>
        rw [List.foldl_cons, ih]
        by_cases hname : name = ['.']
        · simp [spelled, hname]
        · simp [spelled, hname]
  rw [DirTree.follow, horigin, henter, moves, List.nil_append]

/-- Two paths that lead to one directory in every tree. -/
theorem follow_eq_iff (path path' : List Char) :
    (∀ {Node : Type} (tree : DirTree Node) (dir : Node),
        tree.follow dir path = tree.follow dir path') ↔
      isAbsolute path = isAbsolute path' ∧ moves path = moves path' := by
  constructor
  · intro h
    have hspelled := h spelled (false, [])
    rw [follow_spelled, follow_spelled] at hspelled
    exact Prod.mk.inj hspelled
  · intro h Node tree dir
    rw [DirTree.follow, DirTree.follow, ← tree.foldl_enter_filter (components path),
      ← tree.foldl_enter_filter (components path'), DirTree.origin, DirTree.origin, h.1]
    exact congrArg _ h.2

end G3log.Paths
