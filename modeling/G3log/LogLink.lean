import G3log.FileParts
import G3log.LogDirectory

/-!
# The link to the log file

The constructor of a `FileSink` makes a symbolic link to the file it has just opened,
beside that file: *every time we create a new logfile, we destroy the old link and
create a new one. So it always points to the latest one*. The target is the path of the
file as the constructor put it together, so under a relative directory it is read from
that directory once more. The fallback to the current directory comes after the link,
and `changeLogFile` makes no link at all.

`latest_iff` says that the link leads to the current file throughout a run exactly when
the first file and every one that `changeLogFile` opens are named by a path that leads
where the first path leads from the directory of the link.

## Main definitions

* `FileSink.logPath`, `linkPath`, `fallbackPath` -- the paths of the constructor.
* `FileSink.LinkLatest` -- the link leads to the file the sink writes to.
-/

namespace G3log.FileSink

open Paths

variable {Node : Type}

/-! ## The paths of a sink -/

/-- The file the constructor opens first, which is what the link holds. -/
def logPath (env : Env) (logPrefix log_directory : String) (level : LEVELS) (logger_id : String)
    (now : Int) : String :=
  pathSanityFix log_directory
    (createLogFileName env (prefixSanityFix logPrefix) level logger_id now)

def linkPath (logPrefix log_directory : String) (level : LEVELS) : String :=
  pathSanityFix log_directory (createLinkName (prefixSanityFix logPrefix) level)

/-- The file it opens when the first one fails. -/
def fallbackPath (env : Env) (logPrefix : String) (level : LEVELS) (logger_id : String)
    (now : Int) : String :=
  "./" ++ createLogFileName env (prefixSanityFix logPrefix) level logger_id now

/-- The link of the constructor leads to the file at a path, for a process in `cwd`. -/
def LinkLeads (tree : DirTree Node) (cwd : Node) (env : Env) (logPrefix log_directory : String)
    (level : LEVELS) (logger_id : String) (now : Int) (path : String) : Prop :=
  tree.Leads cwd (linkPath logPrefix log_directory level).toList
    (logPath env logPrefix log_directory level logger_id now).toList path.toList

/-- The link at `link` leads to the file the sink writes to, for a process in `cwd`. -/
def LinkLatest (tree : DirTree Node) (cwd : Node) (link : String) (σ : State) : Prop :=
  ∃ target, σ.disk.links link = some target ∧
    tree.Leads cwd link.toList target.toList σ.fileName.toList

/-! ## What a call does to the link -/

/-- A call that leaves the links and the names alone. -/
structure SameLog (σ σ' : State) : Prop where
  links : σ'.disk.links = σ.disk.links
  verified : σ'.sink._log_prefix_backup = σ.sink._log_prefix_backup
  fileName : σ'.fileName = σ.fileName

theorem SameLog.trans {σ σ₁ σ₂ : State} (h : SameLog σ σ₁) (h₁ : SameLog σ₁ σ₂) :
    SameLog σ σ₂ where
  links := h₁.links.trans h.links
  verified := h₁.verified.trans h.verified
  fileName := h₁.fileName.trans h.fileName

theorem sameLog_insert {text : List Cell} {σ σ' : State} (hσ' : σ.insert text = some σ') :
    SameLog σ σ' := by
  simp only [State.insert, Option.map_eq_some_iff] at hσ'
  obtain ⟨out, -, rfl⟩ := hσ'
  exact ⟨rfl, rfl, rfl⟩

theorem sameLog_firstEntry {env : Env} {now : Int} {σ σ' : State}
    (hσ' : σ.firstEntry env now = some σ') : SameLog σ σ' := by
  unfold State.firstEntry at hσ'
  split at hσ'
  · obtain ⟨σ₁, hσ₁, rfl⟩ := Option.map_eq_some_iff.mp hσ'
    have h₁ : SameLog σ σ₁ := sameLog_insert hσ₁
    exact ⟨h₁.links, h₁.verified, h₁.fileName⟩
  · rw [← Option.some.inj hσ']
    exact ⟨rfl, rfl, rfl⟩

theorem sameLog_fileWrite {env : Env} {now : Int} {i : ℕ} {message : LogMessage} {σ σ' : State}
    (hσ' : σ.fileWrite env now i message = some σ') : SameLog σ σ' := by
  simp only [State.fileWrite, Option.bind_eq_bind, Option.bind_eq_some_iff] at hσ'
  obtain ⟨σ₁, hσ₁, hσ'⟩ := hσ'
  have h₁ := sameLog_firstEntry hσ₁
  split at hσ'
  · rwa [← Option.some.inj hσ']
  · exact h₁.trans (sameLog_insert hσ')

/-- A change of file that opens none. -/
theorem sameLog_changeLogFile {env : Env} {directory logger_id name : String} {level : LEVELS}
    {now nowName nowHeader : Int} {σ σ' : State}
    (hσ' : σ.changeLogFile env directory logger_id level now nowName nowHeader false =
      some (name, σ')) : SameLog σ σ' := by
  simp only [State.changeLogFile, createLogFile, openLogFile, Bool.false_eq_true, if_false,
    Option.bind_eq_bind, Option.bind_eq_some_iff, Option.some.injEq, Prod.mk.injEq] at hσ'
  obtain ⟨σ₁, hσ₁, -, rfl⟩ := hσ'
  have h₁ := sameLog_insert hσ₁
  exact ⟨h₁.links, h₁.verified, h₁.fileName⟩

/-- One that opens a file changes its name and no link. -/
theorem links_changeLogFile {env : Env} {directory logger_id name : String} {level : LEVELS}
    {now nowName nowHeader : Int} {σ σ' : State}
    (hσ' : σ.changeLogFile env directory logger_id level now nowName nowHeader true =
      some (name, σ')) :
    σ'.disk.links = σ.disk.links ∧
      σ'.sink._log_prefix_backup = σ.sink._log_prefix_backup ∧
      σ'.fileName = σ.prospect_log env directory logger_id level nowName := by
  simp only [State.changeLogFile, createLogFile, openLogFile, if_true, Option.bind_eq_bind,
    Option.bind_eq_some_iff, Option.some.injEq, Prod.mk.injEq] at hσ'
  obtain ⟨σ₁, hσ₁, σ₂, hσ₂, σ₃, hσ₃, -, rfl⟩ := hσ'
  have h₁ := sameLog_insert hσ₁
  have h₂ := sameLog_insert hσ₂
  have h₃ := sameLog_insert hσ₃
  exact ⟨h₃.links.trans (h₂.links.trans h₁.links),
    h₃.verified.trans (h₂.verified.trans h₁.verified), h₃.fileName⟩

/-- A call makes no link, and moves the sink to the file it opens, if any. -/
theorem links_step {env : Env} {r r' : Run} {op : Op} (hr' : step env r op = some r') :
    r'.state.disk.links = r.state.disk.links ∧
      r'.state.sink._log_prefix_backup = r.state.sink._log_prefix_backup ∧
      r'.state.fileName =
        (op.newLog env r.state.sink._log_prefix_backup).getD r.state.fileName := by
  cases op with
  | fileWrite message now =>
      simp only [step, Option.bind_eq_bind, Option.bind_eq_some_iff, Option.some.injEq] at hr'
      obtain ⟨σ, hσ, rfl⟩ := hr'
      have h := sameLog_fileWrite hσ
      exact ⟨h.links, h.verified, h.fileName⟩
  | fileName =>
      rw [← Option.some.inj hr']
      exact ⟨rfl, rfl, rfl⟩
  | overrideLogDetails func =>
      rw [← Option.some.inj hr']
      exact ⟨rfl, rfl, rfl⟩
  | overrideLogHeader change =>
      rw [← Option.some.inj hr']
      exact ⟨rfl, rfl, rfl⟩
  | changeLogFile directory logger_id level now nowName nowHeader opens =>
      simp only [step, Option.bind_eq_bind, Option.bind_eq_some_iff, Option.some.injEq] at hr'
      obtain ⟨⟨name, σ⟩, hσ, rfl⟩ := hr'
      cases opens with
      | false =>
          have h := sameLog_changeLogFile hσ
          exact ⟨h.links, h.verified, h.fileName⟩
      | true => exact links_changeLogFile hσ

/-! ## Runs -/

/-- The link a sink was made with. -/
structure Linked (link target verified : String) (r : Run) : Prop where
  links : r.state.disk.links link = some target
  verified : r.state.sink._log_prefix_backup = verified
  isOpen : r.state.sink._outptr.isSome

theorem Linked.step {link target verified : String} {r r' : Run}
    (h : Linked link target verified r) {env : Env} {op : Op} (hr' : step env r op = some r')
    (hopen : r'.state.sink._outptr.isSome) : Linked link target verified r' where
  links := by
    rw [(links_step hr').1]
    exact h.links
  verified := (links_step hr').2.1.trans h.verified
  isOpen := hopen

theorem Linked.linkLatest_iff {link target verified : String} {r : Run}
    (h : Linked link target verified r) (tree : DirTree Node) (cwd : Node) :
    LinkLatest tree cwd link r.state ↔
      tree.Leads cwd link.toList target.toList r.state.fileName.toList := by
  simp [LinkLatest, h.links]

/-- The link leads to the current file in every state of a run: of the first one, and
of every file that a call opens. -/
theorem Linked.latest_runFrom_iff {link target verified : String} {r : Run}
    (h : Linked link target verified r) (env : Env) (tree : DirTree Node) (cwd : Node)
    (ops : List Op) :
    (∀ pre, pre <+: ops → ∃ r', runFrom env r pre = some r' ∧
        LinkLatest tree cwd link r'.state) ↔
      tree.Leads cwd link.toList target.toList r.state.fileName.toList ∧
        ∀ op ∈ ops, ∀ path, op.newLog env verified = some path →
          tree.Leads cwd link.toList target.toList path.toList := by
  induction ops generalizing r with
  | nil => simp [runFrom, h.linkLatest_iff]
  | cons op ops ih =>
      obtain ⟨r₁, hr₁, hopen₁⟩ := exists_step h.isOpen env op
      have hname := (links_step hr₁).2.2
      rw [h.verified] at hname
      have hrest := ih (h.step hr₁ hopen₁)
      have hrun (pre : List Op) : runFrom env r (op :: pre) = runFrom env r₁ pre := by
        simp [runFrom, hr₁]
      constructor
      · intro hall
        have hfirst : LinkLatest tree cwd link r.state := by
          obtain ⟨r', hr', hlatest⟩ := hall [] (by simp)
          obtain rfl := Option.some.inj hr'
          exact hlatest
        have htail := hrest.mp fun pre hpre => by
          obtain ⟨r', hr', hlatest⟩ := hall (op :: pre) (by simpa using hpre)
          exact ⟨r', (hrun pre).symm.trans hr', hlatest⟩
        refine ⟨(h.linkLatest_iff tree cwd).mp hfirst, fun op' hop' path hpath => ?_⟩
        rcases List.mem_cons.mp hop' with rfl | hop'
        · rw [hpath, Option.getD_some] at hname
          rw [← hname]
          exact htail.1
        · exact htail.2 op' hop' path hpath
      · rintro ⟨hfirst, hops⟩ pre hpre
        have htail : tree.Leads cwd link.toList target.toList r₁.state.fileName.toList := by
          rw [hname]
          cases hpath : op.newLog env verified with
          | none => exact hfirst
          | some path => exact hops op (by simp) path hpath
        cases pre with
        | nil => exact ⟨r, rfl, (h.linkLatest_iff tree cwd).mpr hfirst⟩
        | cons op₀ pre =>
            obtain ⟨rfl, hpre'⟩ := List.cons_prefix_cons.mp hpre
            rw [hrun]
            exact hrest.mpr ⟨htail, fun op' hop' => hops op' (by simp [hop'])⟩ pre hpre'

theorem createLinkName_ne_empty (verified : String) (level : LEVELS) :
    createLinkName verified level ≠ "" := by
  simp [createLinkName]

theorem pathSanityFix_ne_empty {file_name : String} (h : file_name ≠ "") (path : String) :
    pathSanityFix path file_name ≠ "" := by
  simp only [pathSanityFix]
  split
  · exact h
  · simp [h]

/-- The second link, under the flag, holds the same path. -/
theorem links_flag (target link link' : String) (c : Bool) (disk : Disk) :
    (if c = true then relink target link disk
      else relink target link' (relink target link disk)).links link = some target := by
  split
  · simp [relink]
  · by_cases h : link = link'
    · simp [relink, h]
    · simp [relink, Function.update_of_ne h]

/-- What the constructor leaves: a link that holds the first path, and a name that is
this path or that of the fallback. -/
theorem create_link {env : Env} {logPrefix log_directory logger_id : String} {level : LEVELS}
    {now : Int} {opens opensFallback : Bool} {disk : Disk} {σ : State}
    (hσ : create env logPrefix log_directory level logger_id now opens opensFallback disk =
      some σ) (hopen : σ.sink._outptr.isSome) :
    Linked (linkPath logPrefix log_directory level)
        (logPath env logPrefix log_directory level logger_id now) (prefixSanityFix logPrefix)
        (start σ) ∧
      σ.fileName = if opens then logPath env logPrefix log_directory level logger_id now
        else fallbackPath env logPrefix level logger_id now := by
  have hlink : (pathSanityFix log_directory
      (createLinkName (prefixSanityFix logPrefix) level)).isEmpty = false := by
    simpa using pathSanityFix_ne_empty (createLinkName_ne_empty _ level) log_directory
  unfold create at hσ
  simp only [createLogFile, openLogFile, hlink, Bool.false_eq_true, if_false] at hσ
  split at hσ
  · simp at hσ
  · cases opens with
    | true =>
        simp only [if_true, Option.some.injEq] at hσ
        subst hσ
        refine ⟨⟨?_, ?_, hopen⟩, ?_⟩
        · simp only [start, linkPath, logPath]
          exact links_flag _ _ _ _ _
        · simp only [start]
        · simp only [State.fileName, if_true, logPath]
    | false =>
        cases opensFallback with
        | true =>
            simp only [if_true, if_false, Bool.false_eq_true, Option.some.injEq] at hσ
            subst hσ
            refine ⟨⟨?_, ?_, hopen⟩, ?_⟩
            · simp only [start, linkPath, logPath]
              exact links_flag _ _ _ _ _
            · simp only [start]
            · simp only [State.fileName, if_false, Bool.false_eq_true, fallbackPath]
        | false =>
            simp only [if_false, Bool.false_eq_true, Option.some.injEq] at hσ
            subst hσ
            simp at hopen

/-- The link of a constructed sink leads to the file the sink writes to, through any
calls, exactly when the file the constructor settles on, and every one a call opens, is
where the first path leads from the directory of the link. -/
theorem latest_iff (tree : DirTree Node) (cwd : Node) (env : Env)
    (logPrefix log_directory logger_id : String) (level : LEVELS) (now : Int)
    (opens opensFallback : Bool) (disk : Disk) (σ : State)
    (hσ : create env logPrefix log_directory level logger_id now opens opensFallback disk =
      some σ) (hopen : σ.sink._outptr.isSome) (ops : List Op) :
    (∀ pre, pre <+: ops → ∃ r, run env σ pre = some r ∧
        LinkLatest tree cwd (linkPath logPrefix log_directory level) r.state) ↔
      LinkLeads tree cwd env logPrefix log_directory level logger_id now
          (if opens then logPath env logPrefix log_directory level logger_id now
            else fallbackPath env logPrefix level logger_id now) ∧
        ∀ op ∈ ops, ∀ path, op.newLog env (prefixSanityFix logPrefix) = some path →
          LinkLeads tree cwd env logPrefix log_directory level logger_id now path := by
  have hcreate := create_link hσ hopen
  rw [← hcreate.2]
  exact hcreate.1.latest_runFrom_iff env tree cwd ops

/-! ## Names without a slash -/

section
variable {env : Env} {logPrefix : String} {level : LEVELS} {logger_id : String} {now : Int}

theorem toList_createLogFileName_ne_nil :
    (createLogFileName env (prefixSanityFix logPrefix) level logger_id now).toList ≠ [] := by
  simp [createLogFileName]

theorem toList_createLinkName_ne_nil :
    (createLinkName (prefixSanityFix logPrefix) level).toList ≠ [] := by
  simp [createLinkName]

variable (hlink : '/' ∉ (createLinkName (prefixSanityFix logPrefix) level).toList)
  (hname : '/' ∉
    (createLogFileName env (prefixSanityFix logPrefix) level logger_id now).toList)

include hlink hname

/-- The link leads to the first file exactly when the log directory, read from itself,
is itself. -/
theorem linkLeads_logPath_iff (tree : DirTree Node) (cwd : Node) (log_directory : String) :
    LinkLeads tree cwd env logPrefix log_directory level logger_id now
        (logPath env logPrefix log_directory level logger_id now) ↔
      tree.follow (tree.follow cwd (logDirectory log_directory)) (logDirectory log_directory) =
        tree.follow cwd (logDirectory log_directory) := by
  have hplace := tree.place_join hname toList_createLogFileName_ne_nil
    (logDirectory log_directory) cwd
  rw [LinkLeads, linkPath, logPath, toList_pathSanityFix, toList_pathSanityFix]
  exact tree.leads_join_iff hlink toList_createLinkName_ne_nil hname
    toList_createLogFileName_ne_nil hplace

/-- It leads to the file of the fallback exactly when that is the current directory. -/
theorem linkLeads_fallbackPath_iff (tree : DirTree Node) (cwd : Node) (log_directory : String) :
    LinkLeads tree cwd env logPrefix log_directory level logger_id now
        (fallbackPath env logPrefix level logger_id now) ↔
      tree.follow (tree.follow cwd (logDirectory log_directory)) (logDirectory log_directory) =
        cwd := by
  have hplace := tree.place_dot hname toList_createLogFileName_ne_nil cwd
  rw [LinkLeads, linkPath, logPath, toList_pathSanityFix, toList_pathSanityFix, fallbackPath,
    String.toList_append]
  exact tree.leads_join_iff hlink toList_createLinkName_ne_nil hname
    toList_createLogFileName_ne_nil hplace

/-- Under an absolute directory the link is right to begin with. -/
theorem linkLeads_of_isAbsolute (tree : DirTree Node) (cwd : Node) {log_directory : String}
    (habs : isAbsolute (logDirectory log_directory) = true) :
    LinkLeads tree cwd env logPrefix log_directory level logger_id now
      (logPath env logPrefix log_directory level logger_id now) := by
  rw [linkLeads_logPath_iff hlink hname, DirTree.follow, DirTree.follow]
  simp [DirTree.origin, habs]

/-- Under a directory below the current one it is not. -/
theorem not_linkLeads_of_below (cwd : List (List Char)) {log_directory : String}
    (hrel : isAbsolute (logDirectory log_directory) = false)
    (hplain : ∀ name ∈ components (logDirectory log_directory),
      name ≠ ['.'] ∧ name ≠ ['.', '.'])
    (hne : components (logDirectory log_directory) ≠ []) :
    ¬ LinkLeads lexical cwd env logPrefix log_directory level logger_id now
      (logPath env logPrefix log_directory level logger_id now) := by
  rw [linkLeads_logPath_iff hlink hname, follow_lexical hrel hplain, follow_lexical hrel hplain]
  intro h
  exact hne (by simpa using h)

end

/-! ## A change of file -/

/-- A sink under an absolute directory that a call moves to another one, and one that stays
through a write, a change within the directory and a change that fails. -/
theorem latest_iff_elsewhere :
    ((∀ pre, pre <+: [.changeLogFile "/var/log/" "" G3LOG_INFO 0 0 0 true] →
        ∃ r, run epoch sinkAtEpoch pre = some r ∧
          LinkLatest lexical [] (linkPath "log" "/tmp/" G3LOG_INFO) r.state) ↔
      LinkLeads lexical [] epoch "log" "/tmp/" G3LOG_INFO "" 0
          (if true then logPath epoch "log" "/tmp/" G3LOG_INFO "" 0
            else fallbackPath epoch "log" G3LOG_INFO "" 0) ∧
        ∀ op ∈ [Op.changeLogFile "/var/log/" "" G3LOG_INFO 0 0 0 true], ∀ path,
          op.newLog epoch (prefixSanityFix "log") = some path →
            LinkLeads lexical [] epoch "log" "/tmp/" G3LOG_INFO "" 0 path) ∧
    ∀ pre, pre <+: [.fileWrite greeting 0, .changeLogFile "/tmp/" "" G3LOG_INFO 0 0 0 true,
        .changeLogFile "/nowhere/" "" G3LOG_INFO 1 1 1 false, .fileWrite greeting 1] →
      ∃ r, run epoch sinkAtEpoch pre = some r ∧
        LinkLatest lexical [] (linkPath "log" "/tmp/" G3LOG_INFO) r.state := by
  have hiff := latest_iff lexical [] epoch "log" "/tmp/" "" G3LOG_INFO 0 true true
    (diskOf (fun _ => none) fun _ => none) sinkAtEpoch createdAtEpoch_eq sinkAtEpoch_isOpen
  have hleads : LinkLeads lexical [] epoch "log" "/tmp/" G3LOG_INFO "" 0
      (logPath epoch "log" "/tmp/" G3LOG_INFO "" 0) :=
    linkLeads_of_isAbsolute (by decide +kernel) (by decide +kernel) lexical [] (by decide +kernel)
  refine ⟨hiff _, (hiff _).mpr ⟨hleads, ?_⟩⟩
  intro op hop path hpath
  simp only [List.mem_cons, List.not_mem_nil, or_false] at hop
  rcases hop with rfl | rfl | rfl | rfl
  · cases hpath
  · -- The change within the directory opens the first path again.
    have hsame : path = logPath epoch "log" "/tmp/" G3LOG_INFO "" 0 :=
      (Option.some.inj hpath).symm.trans (by decide +kernel)
    rw [hsame]
    exact hleads
  · cases hpath
  · cases hpath

/-- After a change of file the link still leads to the file before. -/
theorem change_leaves_link :
    ¬ ∀ (cwd : List (List Char)) (env : Env) (logPrefix log_directory logger_id : String)
      (level : LEVELS) (now : Int) (opens opensFallback : Bool) (disk : Disk) (σ : State)
      (ops : List Op) (r : Run),
      create env logPrefix log_directory level logger_id now opens opensFallback disk = some σ →
        σ.sink._outptr.isSome → run env σ ops = some r →
          LinkLatest lexical cwd (linkPath logPrefix log_directory level) r.state := by
  intro h
  let change : Op := .changeLogFile "/var/log/" "" G3LOG_INFO 0 0 0 true
  -- The link names a file in /tmp/, and the sink has gone to one in /var/log/.
  have hwrong : ((run epoch sinkAtEpoch [change]).any fun r =>
      (r.state.disk.links (linkPath "log" "/tmp/" G3LOG_INFO)).all fun target =>
        !decide (lexical.Leads [] (linkPath "log" "/tmp/" G3LOG_INFO).toList target.toList
          r.state.fileName.toList)) = true := by decide +kernel
  obtain ⟨r, hr, hlink⟩ := (Option.any_eq_true _ _).mp hwrong
  obtain ⟨target, htarget, hleads⟩ := h [] epoch "log" "/tmp/" "" G3LOG_INFO 0 true true _
    sinkAtEpoch _ r createdAtEpoch_eq sinkAtEpoch_isOpen hr
  simp [htarget, hleads] at hlink

end G3log.FileSink
