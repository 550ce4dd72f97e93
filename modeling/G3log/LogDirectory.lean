import G3log.FileSinkHelper
import G3log.Lib.Paths

/-!
# The directory of a log file

`pathSanityFix` puts a directory and a file name together. It trims the slashes at the end
of the directory and puts one of its own before the name, if anything is left of the
directory. Nothing is left of the root.

## Main definitions

* `logDirectory` -- what is left of a directory.
* `LeftAlone` -- a directory that it leaves where it is.
* `Here` -- a directory that is the current one.
* `StaysInside` -- the path names a file that stands in the directory.
-/

namespace G3log.FileSink

open Paths

/-- The log directory as the paths have it. -/
def logDirectory (log_directory : String) : List Char :=
  ((log_directory.toList.map fun c => if c = '\\' then '/' else c).reverse.dropWhile
    fun c => c == '/' || c == ' ').reverse

theorem toList_pathSanityFix (log_directory file_name : String) :
    (pathSanityFix log_directory file_name).toList =
      join (logDirectory log_directory) file_name.toList := by
  have hfix : pathSanityFix log_directory file_name =
      if (logDirectory log_directory).isEmpty then file_name
        else String.ofList (logDirectory log_directory) ++ "/" ++ file_name := rfl
  rw [hfix, join]
  by_cases h : logDirectory log_directory = []
  · rw [if_pos (by simp [h]), if_pos h]
  · rw [if_neg (by simp [h]), if_neg h]
    simp

/-- A slash or a blank, which is trimmed at the end. -/
def isTrimmed (c : Char) : Bool := c == '/' || c == ' '

/-- The directory with one kind of slash. -/
def unified (directory : String) : List Char :=
  directory.toList.map fun c => if c = '\\' then '/' else c

theorem logDirectory_eq (directory : String) :
    logDirectory directory = (unified directory).rdropWhile isTrimmed := rfl

theorem unified_eq {directory : String} (hslash : '\\' ∉ directory.toList) :
    unified directory = directory.toList := by
  rw [unified, List.map_congr_left (g := id), List.map_id]
  intro c hc
  have hne : c ≠ '\\' := by
    intro heq
    exact hslash (heq ▸ hc)
  simp [hne]

theorem backslash_notMem_logDirectory (directory : String) : '\\' ∉ logDirectory directory := by
  intro hmem
  obtain ⟨c, -, hc⟩ := List.mem_map.mp ((List.rdropWhile_prefix isTrimmed _).subset hmem)
  by_cases heq : c = '\\'
  · simp [heq] at hc
  · simp [heq] at hc

/-- Without backslashes, and blanks behind the last name, slashes alone are trimmed. -/
theorem logDirectory_eq_trim {directory : String} (hslash : '\\' ∉ directory.toList)
    (hblank : ∀ c ∈ (trim directory.toList).getLast?, c ≠ ' ') :
    logDirectory directory = trim directory.toList := by
  obtain ⟨k, hk⟩ := exists_slashes directory.toList
  calc logDirectory directory
      = (trim directory.toList ++ List.replicate k '/').rdropWhile isTrimmed := by
        rw [logDirectory_eq, unified_eq hslash, ← hk]
    _ = (trim directory.toList).rdropWhile isTrimmed := by
        apply rdropWhile_append
        intro c hc
        rw [List.eq_of_mem_replicate hc]
        rfl
    _ = trim directory.toList := by
        apply rdropWhile_eq_self
        intro c hc
        have hne : (c == '/') = false := getLast?_rdropWhile c hc
        simp [isTrimmed, hne, hblank c hc]

/-- A directory that the trimming leaves where it is: none at all, or one without a backslash
whose last name does not end with a blank. -/
def LeftAlone (directory : String) : Prop :=
  directory = "" ∨ '\\' ∉ directory.toList ∧ ∃ c ∈ (trim directory.toList).getLast?, c ≠ ' '

theorem isAbsolute_slashes {path : List Char} (hne : path ≠ []) (h : ∀ c ∈ path, c = '/') :
    isAbsolute path = true := by
  cases path with
  | nil => exact absurd rfl hne
  | cons c path => simp [isAbsolute, h c List.mem_cons_self]

/-- Nothing but these is left in its place. -/
theorem leftAlone_of_moves {directory : String}
    (habs : isAbsolute (logDirectory directory) = isAbsolute directory.toList)
    (hmoves : moves (logDirectory directory) = moves directory.toList) : LeftAlone directory := by
  by_cases hempty : directory = ""
  · exact .inl hempty
  right
  have hchars : (logDirectory directory).filter (fun c => c ≠ '/' ∧ c ≠ '.') =
      directory.toList.filter fun c => c ≠ '/' ∧ c ≠ '.' := by
    rw [← flatten_moves, ← flatten_moves, hmoves]
  have hslash : '\\' ∉ directory.toList := by
    intro hmem
    have hleft := hchars ▸ List.mem_filter.mpr ⟨hmem, by decide⟩
    exact backslash_notMem_logDirectory directory (List.mem_filter.mp hleft).1
  have hrest : directory.toList =
      logDirectory directory ++ (unified directory).rtakeWhile isTrimmed := by
    rw [logDirectory_eq, List.rdropWhile_append_rtakeWhile, unified_eq hslash]
  -- No blank is trimmed, so it is slashes.
  have hslashes : ∀ c ∈ (unified directory).rtakeWhile isTrimmed, c = '/' := by
    intro c hc
    by_contra hne
    have hblank : c = ' ' := by
      simpa [isTrimmed, hne] using List.mem_rtakeWhile_imp hc
    rw [hrest, List.filter_append, List.self_eq_append_right, List.filter_eq_nil_iff] at hchars
    exact hchars c hc (by simp [hblank])
  have htrim : trim directory.toList = logDirectory directory := by
    have hdropped : trim directory.toList = trim (logDirectory directory) := by
      conv_lhs => rw [hrest]
      apply rdropWhile_append
      intro c hc
      simp [hslashes c hc]
    rw [hdropped]
    apply rdropWhile_eq_self
    intro c hc
    have hnot : isTrimmed c = false := getLast?_rdropWhile c hc
    simp only [isTrimmed, Bool.or_eq_false_iff] at hnot
    exact hnot.1
  refine ⟨hslash, ?_⟩
  rw [htrim]
  cases hlast : (logDirectory directory).getLast? with
  | some c =>
      have hnot : isTrimmed c = false := getLast?_rdropWhile c hlast
      exact ⟨c, rfl, by simpa [isTrimmed] using (Bool.or_eq_false_iff.mp hnot).2⟩
  | none =>
      have hnil := List.getLast?_eq_none_iff.mp hlast
      rw [hnil] at habs
      rw [hnil, List.nil_append] at hrest
      rw [← hrest] at hslashes
      have hroot := isAbsolute_slashes (by simpa using hempty) hslashes
      rw [← habs] at hroot
      cases hroot

/-- A path leads where the directory given leads, in every tree, if and only if the directory
is left alone. -/
theorem follow_logDirectory_iff (directory : String) :
    (∀ {Node : Type} (tree : DirTree Node) (cwd : Node),
        tree.follow cwd (logDirectory directory) = tree.follow cwd directory.toList) ↔
      LeftAlone directory := by
  rw [follow_eq_iff]
  constructor
  · intro h
    exact leftAlone_of_moves h.1 h.2
  · rintro (rfl | ⟨hslash, c, hlast, hc⟩)
    · exact ⟨rfl, rfl⟩
    · have htrim : logDirectory directory = trim directory.toList := by
        apply logDirectory_eq_trim hslash
        intro d hd
        rwa [Option.mem_unique hd hlast]
      have hne : trim directory.toList ≠ [] := by
        intro hnil
        simp [hnil] at hlast
      rw [htrim]
      exact ⟨isAbsolute_trim hne, by rw [moves, components_trim, moves]⟩

/-- A directory that is the current one however the tree may be. -/
def Here (directory : String) : Prop :=
  isAbsolute directory.toList = false ∧ moves directory.toList = []

theorem follow_here_iff (directory : String) :
    (∀ {Node : Type} (tree : DirTree Node) (cwd : Node),
        tree.follow cwd directory.toList = cwd) ↔ Here directory := by
  have hiff := follow_eq_iff directory.toList []
  simp only [DirTree.follow_nil] at hiff
  exact hiff

theorem ne_blank_of_notMem {path : List Char} (hblank : ' ' ∉ path) :
    ∀ c ∈ (trim path).getLast?, c ≠ ' ' := by
  intro c hc heq
  have hmem := (List.rdropWhile_prefix _ _).subset (List.mem_of_getLast? hc)
  exact hblank (heq ▸ hmem)

/-- The path of a file is its name in the directory: the directory without slashes at its
end, one slash and the name, or the bare name if no directory is given. An absolute
directory gives an absolute path, the file stands in the directory, and slashes at its end
do not matter. -/
structure StaysInside (directory file_name : String) : Prop where
  bare : directory = "" → pathSanityFix directory file_name = file_name
  text : directory ≠ "" → (pathSanityFix directory file_name).toList =
    trim directory.toList ++ '/' :: file_name.toList
  absolute : isAbsolute (pathSanityFix directory file_name).toList =
    isAbsolute directory.toList
  inside : file_name ≠ "" → ∀ {Node : Type} (tree : DirTree Node) (cwd : Node),
    tree.place cwd (pathSanityFix directory file_name).toList =
      (tree.follow cwd directory.toList, file_name.toList)
  slashes : directory ≠ "" → ∀ k,
    pathSanityFix (directory ++ String.ofList (List.replicate k '/')) file_name =
      pathSanityFix directory file_name

theorem staysInside_empty {directory file_name : String} (hdirectory : directory = "")
    (hname : '/' ∉ file_name.toList) : StaysInside directory file_name := by
  subst hdirectory
  have hbare : pathSanityFix "" file_name = file_name := rfl
  constructor
  · intro _
    exact hbare
  · intro hne
    exact absurd rfl hne
  · rw [hbare, isAbsolute_name hname]
    rfl
  · intro hne Node tree cwd
    rw [hbare, tree.place_name hname (by simpa using hne)]
    exact congrArg (·, file_name.toList) (tree.follow_nil cwd).symm
  · intro hne
    exact absurd rfl hne

theorem staysInside_of_trim {directory file_name : String} (hslash : '\\' ∉ directory.toList)
    (hblank : ' ' ∉ directory.toList) (hname : '/' ∉ file_name.toList)
    (htrim : trim directory.toList ≠ []) : StaysInside directory file_name := by
  have hpath := toList_pathSanityFix directory file_name
  rw [logDirectory_eq_trim hslash (ne_blank_of_notMem hblank)] at hpath
  have hjoin : join (trim directory.toList) file_name.toList =
      trim directory.toList ++ '/' :: file_name.toList := if_neg htrim
  constructor
  · intro hempty
    rw [hempty] at htrim
    exact absurd rfl htrim
  · intro _
    rw [hpath, hjoin]
  · rw [hpath, hjoin, isAbsolute_append htrim, isAbsolute_trim htrim]
  · intro hne Node tree cwd
    rw [hpath, tree.place_join hname (by simpa using hne), tree.follow_trim htrim]
  · intro _ k
    have happend := toList_pathSanityFix (directory ++ String.ofList (List.replicate k '/'))
      file_name
    rw [logDirectory_eq_trim (by simp [hslash]) (ne_blank_of_notMem (by simp [hblank])),
      String.toList_append, String.toList_ofList, trim_append_slashes, ← hpath] at happend
    exact String.toList_injective happend

/-- A file stays in the directory it is meant for, if and only if that is none at all or has
something in it besides slashes. -/
theorem staysInside_iff (directory file_name : String) (hslash : '\\' ∉ directory.toList)
    (hblank : ' ' ∉ directory.toList) (hname : '/' ∉ file_name.toList) :
    StaysInside directory file_name ↔ directory = "" ∨ ∃ c ∈ directory.toList, c ≠ '/' := by
  have hpath := toList_pathSanityFix directory file_name
  rw [logDirectory_eq_trim hslash (ne_blank_of_notMem hblank)] at hpath
  constructor
  · intro h
    by_contra hcon
    simp only [not_or, not_exists, not_and, not_not] at hcon
    have htrim := (trim_eq_nil_iff _).mpr hcon.2
    have htext := h.text hcon.1
    rw [hpath, htrim, join, if_pos rfl] at htext
    exact hname (by rw [htext]; simp)
  · intro h
    by_cases hempty : directory = ""
    · exact staysInside_empty hempty hname
    · have htrim : trim directory.toList ≠ [] := by
        intro hnil
        obtain ⟨c, hc, hne⟩ := h.resolve_left hempty
        exact hne ((trim_eq_nil_iff _).mp hnil c hc)
      exact staysInside_of_trim hslash hblank hname htrim

/-- A directory with a name to it, absolute and with slashes at its end. -/
theorem staysInside_iff_absolute : StaysInside "/var/log//" "log.txt" :=
  (staysInside_iff "/var/log//" "log.txt" (by decide) (by decide) (by decide)).mpr
    (.inr ⟨'v', by decide, by decide⟩)

/-- A file meant for the root goes to the current directory. -/
theorem not_staysInside_root : pathSanityFix "/" "log.txt" = "log.txt" ∧
    ¬ ∀ directory file_name : String, '\\' ∉ directory.toList → ' ' ∉ directory.toList →
      '/' ∉ file_name.toList → StaysInside directory file_name := by
  refine ⟨by decide, ?_⟩
  intro h
  have hroot := (h "/" "log.txt" (by decide) (by decide) (by decide)).absolute
  revert hroot
  decide

end G3log.FileSink
