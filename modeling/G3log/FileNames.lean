import G3log.LogLink
import G3log.Time
import G3log.Lib.Fields

/-!
# Names of log files

A log file is named after the prefix, the machine, the user, the level and the second it was
made in, with dots between them, and the prefix is the only part that is checked. The check
is sound: what `prefixSanityFix` lets through is one name without a dot. A slash can come in
with the user or with the text of the level, and the id of the logger does not come in at
all. A name without one stands in the directory given for it, where `pathSanityFix` leaves
that alone and the file can be opened there.

Names are whole texts here and are taken to hold no NUL, at which `open` and the copies of a
level would cut them off.

## Main definitions

* `LastSlash`, `Sanitised` -- what is promised of a checked prefix.
* `CTime.Stamps`, `Stamped` -- the time in a name, as `localtime_formatted` makes it.
* `OneName` -- a file that stands under one name in the directory given for it.
* `Origin`, `Apart` -- what a log file is made for, and files that are not confused.
-/

namespace G3log.FileSink

open Paths Fields Time

/-! ## The prefix -/

def isSlash (c : Char) : Bool := c == '/' || c == '\\'

/-- A text up to its last slash or backslash, and what follows. -/
structure LastSlash (text front part : List Char) : Prop where
  eq : text = front ++ part
  part : ∀ c ∈ part, isSlash c = false
  front : ∀ c ∈ front.getLast?, isSlash c = true

/-- A character that no filter removes. -/
def isKept (c : Char) : Bool := !isspace c && c != '.' && c != ':'

theorem afterLast_eq {text front part : List Char} (h : LastSlash text front part) :
    afterLast isSlash text = part := by
  have hpart : ∀ c ∈ part.reverse, (!isSlash c) = true := by
    intro c hc
    simp [h.part c (List.mem_reverse.mp hc)]
  have hfront : front.reverse.takeWhile (fun c => !isSlash c) = [] := by
    cases hlast : front.getLast? with
    | none => simp [List.getLast?_eq_none_iff.mp hlast]
    | some c =>
        obtain ⟨rest, rfl⟩ := List.getLast?_eq_some_iff.mp hlast
        simp [h.front c hlast]
  rw [afterLast, h.eq, List.reverse_append, List.takeWhile_append_of_pos hpart, hfront]
  simp

theorem exists_lastSlash (text : List Char) :
    ∃ front, LastSlash text front (afterLast isSlash text) := by
  refine ⟨text.rdropWhile fun c => !isSlash c, ?_, ?_, ?_⟩
  · exact List.rdropWhile_append_rtakeWhile.symm
  · intro c hc
    simpa using List.mem_rtakeWhile_imp hc
  · intro c hc
    have hne : text.rdropWhile (fun c => !isSlash c) ≠ [] := by
      intro hnil
      simp [hnil] at hc
    have hlast := List.rdropWhile_last_not (fun c => !isSlash c) text hne
    rw [List.getLast?_eq_some_getLast hne, Option.mem_some_iff] at hc
    simpa [hc] using hlast

/-- No slash is left for the filters that remove slashes. -/
theorem prefixSanityFix_eq {logPrefix : String} {front part : List Char}
    (h : LastSlash logPrefix.toList front part) :
    prefixSanityFix logPrefix =
      if isValidFilename (String.ofList (part.filter isKept)) = true then
        String.ofList (part.filter isKept) else "" := by
  have hfilter : ((((part.filter fun c => !isspace c).filter (· ≠ '/')).filter
      (· ≠ '\\')).filter (· ≠ '.')).filter (· ≠ ':') = part.filter isKept := by
    simp only [List.filter_filter]
    apply List.filter_congr
    intro c hc
    have hslash := h.part c hc
    simp only [isSlash, Bool.or_eq_false_iff, beq_eq_false_iff_ne] at hslash
    simp [isKept, hslash, bne, beq_eq_decide, Bool.and_comm, Bool.and_left_comm]
  have hafter : afterLast (fun c => c == '/' || c == '\\') logPrefix.toList = part :=
    afterLast_eq h
  simp only [prefixSanityFix, hafter, hfilter]

theorem isValidFilename_iff (text : List Char) :
    isValidFilename (String.ofList text) = true ↔
      text ≠ [] ∧ ∀ c ∈ text, c ∉ illegal_characters := by
  simp [isValidFilename, and_comm]

/-- A text that the filters leave alone. -/
theorem prefixSanityFix_eq_self {text : List Char} (hkept : ∀ c ∈ text, isKept c = true)
    (hslash : ∀ c ∈ text, isSlash c = false)
    (hvalid : isValidFilename (String.ofList text) = true) :
    prefixSanityFix (String.ofList text) = String.ofList text := by
  have hlast : LastSlash (String.ofList text).toList [] text := by
    constructor
    · simp
    · exact hslash
    · simp
  rw [prefixSanityFix_eq hlast, List.filter_eq_self.mpr hkept, if_pos hvalid]

theorem prefixSanityFix_valid (logPrefix : String) :
    prefixSanityFix logPrefix = "" ∨ isValidFilename (prefixSanityFix logPrefix) = true := by
  obtain ⟨front, hlast⟩ := exists_lastSlash logPrefix.toList
  rw [prefixSanityFix_eq hlast]
  split
  · next h => exact .inr h
  · exact .inl rfl

/-- The constructor gives up on the prefixes of which nothing is left. -/
theorem create_eq_none_iff (env : Env) (logPrefix log_directory logger_id : String)
    (level : LEVELS) (now : Int) (opens opensFallback : Bool) (disk : Disk) :
    create env logPrefix log_directory level logger_id now opens opensFallback disk = none ↔
      prefixSanityFix logPrefix = "" := by
  have hempty : isValidFilename "" = false := by decide
  rw [create]
  rcases prefixSanityFix_valid logPrefix with h | h
  · simp [h, hempty]
  · have hne : prefixSanityFix logPrefix ≠ "" := by
      intro heq
      rw [heq, hempty] at h
      exact absurd h (by decide)
    simp [h, hne]

/-- What is promised of a checked prefix: it is empty or a valid name, and it is what follows
the last slash without white space, dots and colons, if that is legal. A second check
changes nothing, and the constructor gives up on the empty one alone. -/
structure Sanitised (logPrefix : String) : Prop where
  valid : prefixSanityFix logPrefix = "" ∨ isValidFilename (prefixSanityFix logPrefix) = true
  text : ∃ front part, LastSlash logPrefix.toList front part ∧
    prefixSanityFix logPrefix =
      if part.filter isKept ≠ [] ∧ ∀ c ∈ part.filter isKept, c ∉ illegal_characters then
        String.ofList (part.filter isKept) else ""
  again : prefixSanityFix (prefixSanityFix logPrefix) = prefixSanityFix logPrefix
  aborts : ∀ env log_directory level logger_id now opens opensFallback disk,
    create env logPrefix log_directory level logger_id now opens opensFallback disk = none ↔
      prefixSanityFix logPrefix = ""

theorem sanitised (logPrefix : String) : Sanitised logPrefix := by
  obtain ⟨front, hlast⟩ := exists_lastSlash logPrefix.toList
  generalize afterLast isSlash logPrefix.toList = part at hlast
  have heq := prefixSanityFix_eq hlast
  refine ⟨prefixSanityFix_valid logPrefix, ⟨front, part, hlast, ?_⟩, ?_, ?_⟩
  · simp only [heq, isValidFilename_iff]
  · rw [heq]
    split
    · next h =>
        apply prefixSanityFix_eq_self _ _ h
        · intro c hc
          exact (List.mem_filter.mp hc).2
        · intro c hc
          exact hlast.part c (List.mem_filter.mp hc).1
    · rfl
  · intro env log_directory level logger_id now opens opensFallback disk
    exact create_eq_none_iff env logPrefix log_directory logger_id level now opens opensFallback
      disk

/-- The dot that ends a checked prefix is the first one in a name. -/
theorem dot_notMem_prefixSanityFix (logPrefix : String) :
    '.' ∉ (prefixSanityFix logPrefix).toList := by
  obtain ⟨front, hlast⟩ := exists_lastSlash logPrefix.toList
  rw [prefixSanityFix_eq hlast]
  split
  · simp [isKept]
  · simp

theorem slash_notMem_prefixSanityFix (logPrefix : String) :
    '/' ∉ (prefixSanityFix logPrefix).toList := by
  obtain ⟨front, hlast⟩ := exists_lastSlash logPrefix.toList
  rw [prefixSanityFix_eq hlast]
  split
  · intro hmem
    rw [String.toList_ofList] at hmem
    have hslash := hlast.part '/' (List.mem_filter.mp hmem).1
    simp [isSlash] at hslash
  · simp

/-! ## The time in a name -/

section
variable {Tm : Type} {clib : CTime Tm} {env : Env} {now : Int}

/-- `strftime` makes digits and dashes of the format. -/
def Stamps (clib : CTime Tm) : Prop :=
  ∀ t, ∀ c ∈ clib.strftime t file_name_time_formatted.toList, c.isDigit = true ∨ c = '-'

/-- The time in a name is the one that `localtime_formatted` returns. -/
def Stamped (clib : CTime Tm) (env : Env) (now : Int) : Prop :=
  Returns (fun fuel => localtime_formatted clib fuel now file_name_time_formatted.toList)
    (env.localtime_formatted now file_name_time_formatted).toList

/-- There is no fraction to put into the format. -/
theorem localtime_formatted_stamp (clib : CTime Tm) (fuel : ℕ) (now : Int) :
    localtime_formatted clib (fuel + 1) now file_name_time_formatted.toList =
      .ok (put_time clib (clib.localtime_r (now.tdiv 1000000000))
        file_name_time_formatted.toList) := by
  have hfind : Search.findFrom kFractionalIdentier file_name_time_formatted.toList 0 = none := by
    decide
  have hcstr : cstr file_name_time_formatted.toList = file_name_time_formatted.toList := by
    decide
  simp only [localtime_formatted, localtime_formatted_fractions, substituteFrom, hfind,
    Except.map, hcstr]

theorem returns_stamp (clib : CTime Tm) (now : Int) :
    Returns (fun fuel => localtime_formatted clib fuel now file_name_time_formatted.toList)
      (put_time clib (clib.localtime_r (now.tdiv 1000000000))
        file_name_time_formatted.toList) := by
  refine ⟨1, ?_⟩
  intro fuel hfuel
  obtain ⟨n, rfl⟩ := Nat.exists_eq_add_of_le' hfuel
  exact localtime_formatted_stamp clib n now

theorem put_time_eq_or (clib : CTime Tm) (t : Tm) (format : List Char) :
    put_time clib t format = format ∨ put_time clib t format = cstr (clib.strftime t format) :=
  ite_eq_or_eq _ _ _

/-- The format itself takes the place of a text that is too long. -/
theorem mem_stamp (hclib : Stamps clib) (hnow : Stamped clib env now) {c : Char}
    (hc : c ∈ (env.localtime_formatted now file_name_time_formatted).toList) :
    c.isDigit = true ∨ c = '-' ∨ c ∈ file_name_time_formatted.toList := by
  rw [hnow.unique (returns_stamp clib now)] at hc
  rcases put_time_eq_or clib (clib.localtime_r (now.tdiv 1000000000))
    file_name_time_formatted.toList with heq | heq
  · rw [heq] at hc
    exact .inr (.inr hc)
  · rw [heq] at hc
    have hmem := (List.takeWhile_prefix _).subset hc
    exact (hclib _ c hmem).imp_right .inl

theorem dot_notMem_stamp (hclib : Stamps clib) (hnow : Stamped clib env now) :
    '.' ∉ (env.localtime_formatted now file_name_time_formatted).toList := by
  intro hmem
  have hc := mem_stamp hclib hnow hmem
  revert hc
  decide

theorem slash_notMem_stamp (hclib : Stamps clib) (hnow : Stamped clib env now) :
    '/' ∉ (env.localtime_formatted now file_name_time_formatted).toList := by
  intro hmem
  have hc := mem_stamp hclib hnow hmem
  revert hc
  decide

end

/-! ## One name -/

/-- The name of a log file has no slash, and the file that the constructor opens, at the first
try or at the second, stands under it in the directory that was given. -/
structure OneName (env : Env) (logPrefix log_directory : String) (level : LEVELS)
    (logger_id : String) (now : Int) (opens opensFallback : Bool) : Prop where
  slash : '/' ∉ (createLogFileName env (prefixSanityFix logPrefix) level logger_id now).toList
  inside : ∀ {Node : Type} (tree : DirTree Node) (cwd : Node) (disk : Disk) (σ : State)
    (out : OFStream),
    create env logPrefix log_directory level logger_id now opens opensFallback disk = some σ →
      σ.sink._outptr = some out →
        tree.place cwd out.path.toList = (tree.follow cwd log_directory.toList,
          (createLogFileName env (prefixSanityFix logPrefix) level logger_id now).toList)

section
variable {env : Env} {logPrefix log_directory logger_id : String} {level : LEVELS} {now : Int}
  {opens opensFallback : Bool} {disk : Disk}

theorem path_opened {σ : State} {out : OFStream}
    (hσ : create env logPrefix log_directory level logger_id now opens opensFallback disk =
      some σ) (hout : σ.sink._outptr = some out) :
    out.path = if opens then logPath env logPrefix log_directory level logger_id now
      else fallbackPath env logPrefix level logger_id now := by
  have hopen : σ.sink._outptr.isSome := by simp [hout]
  obtain ⟨houtptr, -⟩ := create_files hσ hopen
  rw [← (create_link hσ hopen).2]
  rw [houtptr] at hout
  rw [← Option.some.inj hout]

theorem isSome_opened {σ : State}
    (hσ : create env logPrefix log_directory level logger_id now opens opensFallback disk =
      some σ) : σ.sink._outptr.isSome = (opens || opensFallback) := by
  unfold create at hσ
  simp only [createLogFile, openLogFile] at hσ
  split at hσ
  · simp at hσ
  · obtain rfl := Option.some.inj hσ
    cases opens with
    | true => rfl
    | false => cases opensFallback <;> rfl

theorem exists_opened (hkept : prefixSanityFix logPrefix ≠ "")
    (hopens : (opens || opensFallback) = true) :
    ∃ σ out, create env logPrefix log_directory level logger_id now opens opensFallback disk =
      some σ ∧ σ.sink._outptr = some out := by
  have hsome := mt (create_eq_none_iff env logPrefix log_directory logger_id level now opens
    opensFallback disk).mp hkept
  obtain ⟨σ, hσ⟩ := Option.ne_none_iff_exists'.mp hsome
  obtain ⟨out, hout⟩ := Option.isSome_iff_exists.mp ((isSome_opened hσ).trans hopens)
  exact ⟨σ, out, hσ, hout⟩

section
variable (hslash : '/' ∉
  (createLogFileName env (prefixSanityFix logPrefix) level logger_id now).toList)

include hslash

/-- The first file stands in what is left of the directory, the second in the current one. -/
theorem place_opened {Node : Type} (tree : DirTree Node) (cwd : Node) (log_directory : String)
    (opens : Bool) :
    tree.place cwd (if opens then logPath env logPrefix log_directory level logger_id now
        else fallbackPath env logPrefix level logger_id now).toList =
      (if opens then tree.follow cwd (logDirectory log_directory) else cwd,
        (createLogFileName env (prefixSanityFix logPrefix) level logger_id now).toList) := by
  cases opens with
  | true =>
      have hjoin := tree.place_join hslash toList_createLogFileName_ne_nil
        (logDirectory log_directory) cwd
      simp only [if_true, logPath, toList_pathSanityFix]
      exact hjoin
  | false =>
      have hdot := tree.place_dot hslash toList_createLogFileName_ne_nil cwd
      simp only [Bool.false_eq_true, if_false, fallbackPath, String.toList_append]
      exact hdot

/-- Such a file stands in the directory given if its path leads there. -/
theorem oneName_iff_follow (hkept : prefixSanityFix logPrefix ≠ "") :
    OneName env logPrefix log_directory level logger_id now opens opensFallback ↔
      ((opens || opensFallback) = true →
        ∀ {Node : Type} (tree : DirTree Node) (cwd : Node),
          (if opens then tree.follow cwd (logDirectory log_directory) else cwd) =
            tree.follow cwd log_directory.toList) := by
  constructor
  · intro h hopens Node tree cwd
    have hexists : ∃ σ out, create env logPrefix log_directory level logger_id now opens
        opensFallback (diskOf (fun _ => none) fun _ => none) = some σ ∧
          σ.sink._outptr = some out := exists_opened hkept hopens
    obtain ⟨σ, out, hσ, hout⟩ := hexists
    have hinside := h.inside tree cwd _ σ out hσ hout
    rw [path_opened hσ hout, place_opened hslash] at hinside
    exact congrArg Prod.fst hinside
  · intro h
    refine ⟨hslash, ?_⟩
    intro Node tree cwd disk σ out hσ hout
    have hopens : (opens || opensFallback) = true := by
      rw [← isSome_opened hσ, hout]
      rfl
    rw [path_opened hσ hout, place_opened hslash, h hopens]

end

/-- The first file stands in the directory if the paths leave that alone, and the second if
it is the current one. -/
theorem oneName_iff_directory (hkept : prefixSanityFix logPrefix ≠ "")
    (hslash : '/' ∉
      (createLogFileName env (prefixSanityFix logPrefix) level logger_id now).toList) :
    OneName env logPrefix log_directory level logger_id now opens opensFallback ↔
      (opens = true → LeftAlone log_directory) ∧
        (opens = false → opensFallback = true → Here log_directory) := by
  rw [oneName_iff_follow hslash hkept]
  cases opens with
  | true => simpa using follow_logDirectory_iff log_directory
  | false =>
      have hhere := follow_here_iff log_directory
      simp only [eq_comm] at hhere
      simpa using imp_congr_right fun _ => hhere

end

section
variable {Tm : Type} {clib : CTime Tm} {env : Env} {now : Int}

theorem slash_notMem_createLogFileName_iff (hclib : Stamps clib) (hnow : Stamped clib env now)
    (hhost : '/' ∉ env.nodename.toList) (logPrefix : String) (level : LEVELS)
    (logger_id : String) :
    '/' ∉ (createLogFileName env (prefixSanityFix logPrefix) level logger_id now).toList ↔
      '/' ∉ (GetUserName env).toList ∧ '/' ∉ level.text.toList := by
  have hslash := slash_notMem_prefixSanityFix logPrefix
  have htime := slash_notMem_stamp hclib hnow
  simp [createLogFileName, GetHostName, hslash, htime, hhost]

/-- A log file stands under one name in its directory if and only if neither the name of the
user nor the text of the level has a slash in it, the paths leave the directory alone if the
file opens there, and it is the current one if only the second try succeeds. -/
theorem oneName_iff (hclib : Stamps clib) (hnow : Stamped clib env now)
    (hhost : '/' ∉ env.nodename.toList) {logPrefix : String}
    (hkept : prefixSanityFix logPrefix ≠ "") (log_directory : String) (level : LEVELS)
    (logger_id : String) (opens opensFallback : Bool) :
    OneName env logPrefix log_directory level logger_id now opens opensFallback ↔
      (∀ user, env.user = some user → '/' ∉ user.toList) ∧ '/' ∉ level.text.toList ∧
        (opens = true → LeftAlone log_directory) ∧
        (opens = false → opensFallback = true → Here log_directory) := by
  have huser : '/' ∉ (GetUserName env).toList ↔ ∀ user, env.user = some user →
      '/' ∉ user.toList := by
    cases h : env.user with
    | none => simp [GetUserName, h]
    | some user => simp [GetUserName, h]
  have hname := slash_notMem_createLogFileName_iff hclib hnow hhost logPrefix level logger_id
  rw [huser] at hname
  rw [← and_assoc, ← hname]
  constructor
  · intro h
    exact ⟨h.slash, (oneName_iff_directory hkept h.slash).mp h⟩
  · intro h
    exact (oneName_iff_directory hkept h.1).mpr h.2

end

/-- A clock that stands at the beginning of 1970. -/
def epochClock : CTime Unit where
  localtime_r _ := ()
  strftime _ _ := "19700101-000000".toList

theorem stamps_epochClock : Stamps epochClock := by
  have hdigits : "19700101-000000".toList.all (fun c => c.isDigit || c == '-') = true := by
    decide +kernel
  intro t c hc
  simpa using List.all_eq_true.mp hdigits c hc

theorem stamped_epoch : Stamped epochClock epoch 0 := by
  have htext : put_time epochClock () file_name_time_formatted.toList =
      (epoch.localtime_formatted 0 file_name_time_formatted).toList := by decide +kernel
  have hreturns := returns_stamp epochClock 0
  rw [Stamped, ← htext]
  exact hreturns

theorem oneName_iff_epoch : OneName epoch "log" "/tmp/" G3LOG_INFO "g3log" 0 true true :=
  (oneName_iff stamps_epochClock stamped_epoch (by decide) (by decide +kernel) "/tmp/" G3LOG_INFO
    "g3log" true true).mpr
    ⟨by decide, by decide, fun _ => .inr ⟨by decide, 'p', by decide, by decide⟩, by simp⟩

/-- A user whose name leads up and out of the directory. -/
theorem user_leaves_directory :
    let env := { epoch with user := some "a/../../b" }
    createLogFileName env "log" G3LOG_INFO "g3log" 0 =
        "log.host.a/../../b.log.INFO.19700101-000000" ∧
      lexical.place [] (logPath env "log" "/tmp/" G3LOG_INFO "g3log" 0).toList =
        ([], "b.log.INFO.19700101-000000".toList) ∧
      lexical.follow [] "/tmp/".toList = ["tmp".toList] ∧
      ¬ ∀ (env : Env) (logPrefix log_directory logger_id : String) (level : LEVELS) (now : Int)
        (opens opensFallback : Bool),
        '/' ∉ env.nodename.toList → prefixSanityFix logPrefix ≠ "" →
          OneName env logPrefix log_directory level logger_id now opens opensFallback := by
  intro env
  refine ⟨by decide +kernel, by decide +kernel, by decide +kernel, ?_⟩
  intro h
  have hslash := (h env "log" "/tmp/" "g3log" G3LOG_INFO 0 true true (by decide) (by decide)).slash
  revert hslash
  decide +kernel

/-! ## One file for each sink -/

/-- What a log file is made for. -/
structure Origin where
  logPrefix : String
  level : LEVELS
  logger_id : String
  now : Int

namespace Origin

def fileName (env : Env) (o : Origin) : String :=
  createLogFileName env (prefixSanityFix o.logPrefix) o.level o.logger_id o.now

/-- The text of the second the file was made in. -/
def stamp (env : Env) (o : Origin) : String :=
  env.localtime_formatted o.now file_name_time_formatted

/-- The two agree in everything but, it may be, the id of the logger. -/
structure Alike (env : Env) (o o' : Origin) : Prop where
  logPrefix : prefixSanityFix o.logPrefix = prefixSanityFix o'.logPrefix
  text : o.level.text = o'.level.text
  stamp : o.stamp env = o'.stamp env

/-- The two have one file only if they agree in everything it is made for. -/
structure Apart (env : Env) (o o' : Origin) : Prop where
  name : o.fileName env = o'.fileName env → Alike env o o' ∧ o.logger_id = o'.logger_id
  path : ∀ directory, pathSanityFix directory (o.fileName env) =
    pathSanityFix directory (o'.fileName env) → Alike env o o' ∧ o.logger_id = o'.logger_id
  prospect_log : ∀ directory, directory ++ o.fileName env = directory ++ o'.fileName env →
    Alike env o o' ∧ o.logger_id = o'.logger_id

theorem fileName_eq_iff {Tm : Type} {clib : CTime Tm} {env : Env} (o o' : Origin)
    (hclib : Stamps clib) (hnow : Stamped clib env o.now) (hnow' : Stamped clib env o'.now) :
    o.fileName env = o'.fileName env ↔ Alike env o o' := by
  have hname (o : Origin) : (o.fileName env).toList =
      (prefixSanityFix o.logPrefix).toList ++ '.' :: (env.nodename.toList ++ '.' ::
        ((GetUserName env).toList ++ (".log.".toList ++
          (o.level.text.toList ++ '.' :: (o.stamp env).toList)))) := by
    simp [fileName, createLogFileName, stamp, GetHostName]
  have hstamp : '.' ∉ (o.stamp env).toList := dot_notMem_stamp hclib hnow
  have hstamp' : '.' ∉ (o'.stamp env).toList := dot_notMem_stamp hclib hnow'
  rw [← String.toList_inj, hname, hname,
    append_cons_inj_front (dot_notMem_prefixSanityFix _) (dot_notMem_prefixSanityFix _),
    List.append_cancel_left_eq, List.cons_inj_right, List.append_cancel_left_eq,
    List.append_cancel_left_eq, append_cons_inj_back hstamp hstamp', String.toList_inj,
    String.toList_inj, String.toList_inj]
  constructor
  · intro h
    exact ⟨h.1, h.2.1, h.2.2⟩
  · intro h
    exact ⟨h.logPrefix, h.text, h.stamp⟩

theorem pathSanityFix_inj {directory name name' : String} :
    pathSanityFix directory name = pathSanityFix directory name' ↔ name = name' := by
  constructor
  · intro h
    have hjoin := congrArg String.toList h
    rw [toList_pathSanityFix, toList_pathSanityFix] at hjoin
    by_cases hnil : logDirectory directory = []
    · simpa [join, hnil, String.toList_inj] using hjoin
    · simpa [join, hnil, String.toList_inj] using hjoin
  · intro h
    rw [h]

/-- Files are not confused if and only if sinks that agree in everything else have loggers of
one id. -/
theorem apart_iff {Tm : Type} {clib : CTime Tm} {env : Env} (o o' : Origin)
    (hclib : Stamps clib) (hnow : Stamped clib env o.now) (hnow' : Stamped clib env o'.now) :
    Apart env o o' ↔ (Alike env o o' → o.logger_id = o'.logger_id) := by
  have hname := fileName_eq_iff o o' hclib hnow hnow'
  constructor
  · intro h halike
    exact (h.name (hname.mpr halike)).2
  · intro h
    have hboth (heq : o.fileName env = o'.fileName env) :
        Alike env o o' ∧ o.logger_id = o'.logger_id :=
      ⟨hname.mp heq, h (hname.mp heq)⟩
    constructor
    · exact hboth
    · intro directory heq
      exact hboth (pathSanityFix_inj.mp heq)
    · intro directory heq
      rw [← String.toList_inj, String.toList_append, String.toList_append,
        List.append_cancel_left_eq, String.toList_inj] at heq
      exact hboth heq

/-- A level of its own. -/
theorem apart_iff_levels :
    Apart epoch ⟨"log", G3LOG_INFO, "a", 0⟩ ⟨"log", G3LOG_WARNING, "b", 0⟩ :=
  (apart_iff ⟨"log", G3LOG_INFO, "a", 0⟩ ⟨"log", G3LOG_WARNING, "b", 0⟩ stamps_epochClock
    stamped_epoch stamped_epoch).mpr fun h => absurd h.text (by decide)

/-- A log file of a logger by its id. -/
def ofId (logger_id : String) : Origin := ⟨"log", G3LOG_INFO, logger_id, 0⟩

theorem alike_ofId (logger_id logger_id' : String) :
    Alike epoch (ofId logger_id) (ofId logger_id') :=
  ⟨rfl, rfl, rfl⟩

/-- Two loggers that differ in their ids, in one second. -/
theorem ids_share_file :
    (ofId "a").fileName epoch = (ofId "b").fileName epoch ∧
      ¬ ∀ (env : Env) (o o' : Origin), o.logger_id ≠ "" → o'.logger_id ≠ "" →
        prefixSanityFix o.logPrefix ≠ "" → prefixSanityFix o'.logPrefix ≠ "" →
          Apart env o o' := by
  have hshared : (ofId "a").fileName epoch = (ofId "b").fileName epoch :=
    (fileName_eq_iff (ofId "a") (ofId "b") stamps_epochClock stamped_epoch stamped_epoch).mpr
      (alike_ofId "a" "b")
  refine ⟨hshared, ?_⟩
  intro h
  have happart := h epoch (ofId "a") (ofId "b") (by decide) (by decide)
    (by decide +kernel) (by decide +kernel)
  have hids : "a" = "b" := (happart.name hshared).2
  exact absurd hids (by decide)

end Origin
end G3log.FileSink
