import G3log.FileSinkHelper

/-!
# The default file sink

A `FileSink` writes every message at or above its level to one file at a time.
`changeLogFile` moves it to another file, whose name comes from the directory, the
prefix, the level and a time in whole seconds, and opens that file with truncation
while the old stream is still open. When the name is one the sink has written to
before, the messages there are gone: `kept_iff` says that a run keeps every message
exactly when no change of file does that.

Every operation reads the clock where the source does; the times are arguments. So
is the outcome of opening a file.

## Main definitions

* `FileSink`, `FileSink.State` -- the sink, and the sink with the disk.
* `FileSink.create`, `fileWrite`, `changeLogFile` -- the operations.
* `FileSink.Run`, `FileSink.run` -- a run of operations, with what it was given.
* `FileSink.Kept` -- no accepted message is lost.
-/

namespace G3log

open Overwrite

structure FileSink where
  _log_details_func : LogDetailsFunc
  _log_file_with_path : String
  _log_prefix_backup : String
  link_file_with_path_ : String
  /-- Null when no file could be opened. -/
  _outptr : Option OFStream
  _header : String
  _firstEntry : Bool
  min_loglevel_ : LEVELS
  deriving DecidableEq, Repr

namespace FileSink

/-- A sink and the disk it writes to. -/
structure State where
  sink : FileSink
  disk : Disk

/-- The line the destructor writes. -/
def exit_msg (env : Env) (now : Int) : String :=
  "g3log g3FileSink shutdown at: " ++ env.localtime_formatted now time_formatted ++ "\n"

/-- The header a sink starts with. -/
def defaultHeader : String :=
  "\t\tLOG format: [YYYY/MM/DD hh:mm:ss uuu* LEVEL " ++
    "FILE->FUNCTION:LINE] messagen\n\t\t(uuu*: microseconds " ++
    "fractions of the seconds value)\n\n"

/-! ## Operations -/

/-- The constructor; it aborts on an illegal prefix. The link is made before the
fallback to the current directory. -/
def create (env : Env) (logPrefix log_directory : String) (level : LEVELS) (logger_id : String)
    (now : Int) (opens opensFallback : Bool) (disk : Disk) : Option State :=
  let verified := prefixSanityFix logPrefix
  if !isValidFilename verified then none
  else
    let file_name := createLogFileName env verified level logger_id now
    let path := pathSanityFix log_directory file_name
    let (out, disk) := createLogFile path opens disk
    let link_name := createLinkName verified level
    let link := pathSanityFix log_directory link_name
    let disk := if link.isEmpty then disk else relink path link disk
    let disk := if env.FLAGS_log_link.isEmpty then disk
      else relink path (pathSanityFix env.FLAGS_log_link link_name) disk
    let (path, out, disk) := match out with
      | some out => (path, some out, disk)
      | none =>
          let fallback := "./" ++ file_name
          let (out, disk) := createLogFile fallback opensFallback disk
          (fallback, out, disk)
    some
      { sink :=
          { _log_details_func := .DefaultLogDetailsToString
            _log_file_with_path := path
            _log_prefix_backup := verified
            link_file_with_path_ := link
            _outptr := out
            _header := defaultHeader
            _firstEntry := true
            min_loglevel_ := level }
        disk := disk }

namespace State

/-- `filestream() << text`: dereferences the stream, which must not be null. -/
def insert (text : List Cell) (σ : State) : Option State :=
  σ.sink._outptr.map fun out =>
    let (out', disk') := out.write text σ.disk
    { sink := { σ.sink with _outptr := some out' }, disk := disk' }

def addLogFileHeader (env : Env) (now : Int) (σ : State) : Option State :=
  σ.insert (own (header env σ.sink._header now))

/-- The header goes before the first entry, even if that entry is below the level. -/
def firstEntry (env : Env) (now : Int) (σ : State) : Option State :=
  if σ.sink._firstEntry then
    (σ.addLogFileHeader env now).map fun σ =>
      { σ with sink := { σ.sink with _firstEntry := false } }
  else some σ

def fileWrite (env : Env) (now : Int) (i : ℕ) (message : LogMessage) (σ : State) :
    Option State := do
  let σ ← σ.firstEntry env now
  if message.level_value < σ.sink.min_loglevel_.value then some σ
  else σ.insert (ofMessage i (message.toString env σ.sink._log_details_func).1)

/-- The name a change of file would use. -/
def prospect_log (env : Env) (directory logger_id : String) (level : LEVELS) (now : Int)
    (σ : State) : String :=
  directory ++ createLogFileName env σ.sink._log_prefix_backup level logger_id now

/-- The new name, empty on failure. The header still goes to the old stream. -/
def changeLogFile (env : Env) (directory logger_id : String) (level : LEVELS)
    (now nowName nowHeader : Int) (opens : Bool) (σ : State) : Option (String × State) := do
  let now_formatted := env.localtime_formatted now (date_formatted ++ " " ++ time_formatted)
  let prospect := σ.prospect_log env directory logger_id level nowName
  let (log_stream, disk) := createLogFile prospect opens σ.disk
  let σ := { σ with disk := disk }
  match log_stream with
  | none =>
      let σ ← σ.insert (own ("\n" ++ now_formatted ++
        " Unable to change log file. Illegal filename or busy? " ++
        "Unsuccessful log name was: " ++ prospect))
      some ("", σ)
  | some log_stream =>
      let σ ← σ.addLogFileHeader env nowHeader
      let σ ← σ.insert (own (now_formatted ++ "\n\tChanging log file from : " ++
        σ.sink._log_file_with_path ++ "\n\tto new location: " ++ prospect ++ "\n"))
      let old_log := σ.sink._log_file_with_path
      let σ := { σ with sink :=
        { σ.sink with _log_file_with_path := prospect, _outptr := some log_stream } }
      let σ ← σ.insert (own (now_formatted ++
        "\n\tNew log file. The previous log file was at: " ++ old_log ++ "\n"))
      some (σ.sink._log_file_with_path, σ)

def fileName (σ : State) : String := σ.sink._log_file_with_path

/-- `~FileSink` -/
def destroy (env : Env) (now : Int) (σ : State) : Option State := σ.insert (own (exit_msg env now))

def overrideLogDetails (func : LogDetailsFunc) (σ : State) : State :=
  { σ with sink := { σ.sink with _log_details_func := func } }

def overrideLogHeader (change : String) (σ : State) : State :=
  { σ with sink := { σ.sink with _header := change } }

end State

/-- A call on a sink, with the times it reads and whether a file opens. -/
inductive Op
  | fileWrite (message : LogMessage) (now : Int)
  | fileName
  | overrideLogDetails (func : LogDetailsFunc)
  | overrideLogHeader (change : String)
  | changeLogFile (directory logger_id : String) (level : LEVELS)
      (now nowName nowHeader : Int) (opens : Bool)

/-- A run so far: the state, the calls of `fileWrite` made, the messages among them at
or above the level, by call and text, and the files the sink has used. -/
structure Run where
  state : State
  calls : ℕ
  accepted : List (ℕ × String)
  used : List String

def start (σ : State) : Run := ⟨σ, 0, [], [σ.fileName]⟩

/-- One call. There is no result if it dereferences a null stream. -/
def step (env : Env) (r : Run) : Op → Option Run
  | .fileWrite message now => do
      let σ ← r.state.fileWrite env now r.calls message
      let text := (message.toString env r.state.sink._log_details_func).1
      let accepted := if message.level_value < r.state.sink.min_loglevel_.value then r.accepted
        else r.accepted ++ [(r.calls, text)]
      some { r with state := σ, calls := r.calls + 1, accepted := accepted }
  | .fileName => some r
  | .overrideLogDetails func => some { r with state := r.state.overrideLogDetails func }
  | .overrideLogHeader change => some { r with state := r.state.overrideLogHeader change }
  | .changeLogFile directory logger_id level now nowName nowHeader opens => do
      let (_, σ) ← r.state.changeLogFile env directory logger_id level now nowName nowHeader opens
      some { r with state := σ, used := r.used ++ [σ.fileName] }

/-- The run of a sequence of calls on a constructed sink. -/
def run (env : Env) (σ : State) (ops : List Op) : Option Run := ops.foldlM (step env) (start σ)

/-- The message of call `i` stands whole in one file of `files`, and nowhere else. -/
def FoundIn (files : String → Option (List Cell)) (i : ℕ) (text path : String) : Prop :=
  (∃ cs, files path = some cs ∧ Once Cell.origin i (ofMessage i text) cs) ∧
    ∀ path' ≠ path, ∀ cs, files path' = some cs → Absent Cell.origin i cs

/-- Every accepted message is found once and complete in a file the sink has used,
and every file holds its messages in the order they were written. -/
structure Kept (r : Run) : Prop where
  found : ∀ i text, (i, text) ∈ r.accepted →
    ∃ path ∈ r.used, FoundIn r.state.disk.files i text path
  ordered : ∀ path cs, r.state.disk.files path = some cs → TagsOrdered Cell.origin cs

/-- A change of file does not open a path that a message has been written to. -/
def OpensFresh (env : Env) (r : Run) : Op → Prop
  | .changeLogFile directory logger_id level _ nowName _ true =>
      ∀ cs, r.state.disk.files (r.state.prospect_log env directory logger_id level nowName) =
        some cs → Clean cs
  | _ => True

/-! ## What the files show

A view splits each file into the part that matters and clean bytes after it: what a
stream wrote since it opened the file, and what an older stream left behind. -/

/-- Each file is its view followed by clean bytes. -/
def Shows (files : String → Option (List Cell)) (view : String → List Cell) : Prop :=
  ∀ path, (files path = none → view path = []) ∧
    ∀ cs, files path = some cs → ∃ rest, Clean rest ∧ cs = view path ++ rest

theorem Shows.clean {files : String → Option (List Cell)} {view : String → List Cell}
    (h : Shows files view) {path : String} (hclean : ∀ cs, files path = some cs → Clean cs) :
    Clean (view path) := by
  cases hcs : files path with
  | none => simp [(h path).1 hcs]
  | some cs =>
      obtain ⟨rest, -, rfl⟩ := (h path).2 cs hcs
      exact (untagged_append.mp (hclean _ hcs)).1

/-- A write where the view ends extends the view. -/
theorem Shows.write {out : OFStream} {disk : Disk} {view : String → List Cell}
    (h : Shows disk.files view) (hopen : (disk.files out.path).isSome)
    (hoff : out.offset = (view out.path).length) (text : List Cell) :
    Shows (out.write text disk).2.files
      (Function.update view out.path (view out.path ++ text)) := by
  intro path
  by_cases hp : path = out.path
  · subst hp
    obtain ⟨cs, hcs⟩ := Option.isSome_iff_exists.mp hopen
    obtain ⟨rest, hrest, rfl⟩ := (h out.path).2 cs hcs
    rw [files_write_self hcs, hoff, writeAt_append]
    simp only [Function.update_self]
    exact ⟨nofun, fun cs' hcs' => ⟨_, hrest.drop _, (Option.some.inj hcs').symm⟩⟩
  · rw [files_write_of_ne hp, Function.update_of_ne hp]
    exact h path

/-- A stream left at any offset of a clean file writes clean bytes. -/
theorem Shows.write_clean {out : OFStream} {disk : Disk} {view : String → List Cell}
    (h : Shows disk.files view) (hview : view out.path = []) {text : List Cell}
    (htext : Clean text) : Shows (out.write text disk).2.files view := by
  intro path
  by_cases hp : path = out.path
  · subst hp
    refine ⟨fun _ => hview, fun cs' hcs' => ⟨cs', ?_, by simp [hview]⟩⟩
    simp only [OFStream.write, Function.update_self, Option.map_eq_some_iff] at hcs'
    obtain ⟨cs, hcs, rfl⟩ := hcs'
    obtain ⟨rest, hrest, rfl⟩ := (h out.path).2 cs hcs
    rw [hview, List.nil_append]
    exact hrest.writeAt rfl htext _
  · rw [files_write_of_ne hp]
    exact h path

/-- Opening a file with truncation empties its view. -/
theorem Shows.truncate {files : String → Option (List Cell)} {view : String → List Cell}
    (h : Shows files view) (path : String) :
    Shows (Function.update files path (some [])) (Function.update view path []) := by
  intro path'
  by_cases hp : path' = path
  · subst hp
    simp only [Function.update_self]
    exact ⟨fun _ => trivial, fun cs hcs => ⟨[], by simp, by simpa using hcs.symm⟩⟩
  · rw [Function.update_of_ne hp, Function.update_of_ne hp]
    exact h path'

/-- The messages a run was given, by where the views hold them. -/
structure Filed (calls : ℕ) (accepted : List (ℕ × String)) (used : List String)
    (view : String → List Cell) : Prop where
  found : ∀ i text, (i, text) ∈ accepted → ∃ path ∈ used,
    Once Cell.origin i (ofMessage i text) (view path) ∧
      ∀ path' ≠ path, Absent Cell.origin i (view path')
  nonempty : ∀ i text, (i, text) ∈ accepted → text ≠ ""
  lt_calls : ∀ i text, (i, text) ∈ accepted → i < calls
  mem_accepted : ∀ path, ∀ c ∈ view path, ∀ i, c.origin = some i →
    ∃ text, (i, text) ∈ accepted
  ordered : ∀ path, TagsOrdered Cell.origin (view path)

theorem exists_mem_ofMessage {text : String} (h : text ≠ "") (i : ℕ) :
    ∃ c, c ∈ ofMessage i text ∧ c.origin = some i := by
  have hne : text.toList ≠ [] := by simpa using h
  obtain ⟨b, hb⟩ := List.exists_mem_of_ne_nil _ hne
  exact ⟨⟨b, some i⟩, by simp [ofMessage, hb], rfl⟩

namespace Filed
variable {calls : ℕ} {accepted : List (ℕ × String)} {used : List String}
  {view : String → List Cell}

/-- The sink's own text moves no message. -/
theorem append_own (h : Filed calls accepted used view) (path : String) (text : String) :
    Filed calls accepted used (Function.update view path (view path ++ own text)) where
  found := by
    intro i msg hi
    obtain ⟨p, hp, honce, habsent⟩ := h.found i msg hi
    refine ⟨p, hp, ?_, fun p' hp' => ?_⟩
    · by_cases hpp : p = path
      · subst hpp
        simpa using honce.append ((clean_own text).absent i)
      · rwa [Function.update_of_ne hpp]
    · by_cases hpp : p' = path
      · subst hpp
        simpa using ⟨habsent _ hp', (clean_own text).absent i⟩
      · rw [Function.update_of_ne hpp]
        exact habsent p' hp'
  nonempty := h.nonempty
  lt_calls := h.lt_calls
  mem_accepted := by
    intro p c hc i hi
    by_cases hp : p = path
    · subst hp
      simp only [Function.update_self, List.mem_append] at hc
      rcases hc with hc | hc
      · exact h.mem_accepted p c hc i hi
      · simp [clean_own text c hc] at hi
    · rw [Function.update_of_ne hp] at hc
      exact h.mem_accepted p c hc i hi
  ordered := by
    intro p
    by_cases hp : p = path
    · subst hp
      simpa using (h.ordered p).append_untagged (clean_own text)
    · rw [Function.update_of_ne hp]
      exact h.ordered p

/-- A call whose message is below the level only counts. -/
theorem skip (h : Filed calls accepted used view) : Filed (calls + 1) accepted used view :=
  { h with lt_calls := fun i text hi => Nat.lt_succ_of_lt (h.lt_calls i text hi) }

/-- No view holds a byte of a call that has not been made. -/
theorem absent_calls (h : Filed calls accepted used view) (path : String) :
    Absent Cell.origin calls (view path) := by
  intro c hc hcall
  obtain ⟨text, ht⟩ := h.mem_accepted path c hc calls hcall
  exact absurd (h.lt_calls _ _ ht) (lt_irrefl _)

/-- The message of the next call goes to the end of one view. -/
theorem append_message (h : Filed calls accepted used view) {path : String} (hpath : path ∈ used)
    {text : String} (htext : text ≠ "") :
    Filed (calls + 1) (accepted ++ [(calls, text)]) used
      (Function.update view path (view path ++ ofMessage calls text)) where
  found := by
    intro i msg hi
    rcases List.mem_append.mp hi with hi | hi
    · obtain ⟨p, hp, honce, habsent⟩ := h.found i msg hi
      have hnew : Absent Cell.origin i (ofMessage calls text) :=
        absent_ofMessage (h.lt_calls i msg hi).ne text
      refine ⟨p, hp, ?_, fun p' hp' => ?_⟩
      · by_cases hpp : p = path
        · subst hpp
          simpa using honce.append hnew
        · rwa [Function.update_of_ne hpp]
      · by_cases hpp : p' = path
        · subst hpp
          simpa using ⟨habsent _ hp', hnew⟩
        · rw [Function.update_of_ne hpp]
          exact habsent p' hp'
    · obtain ⟨rfl, rfl⟩ : i = calls ∧ msg = text := by simpa using hi
      refine ⟨path, hpath, ?_, fun p' hp' => ?_⟩
      · simpa using (h.absent_calls path).once_append _
      · rw [Function.update_of_ne hp']
        exact h.absent_calls p'
  nonempty := by
    intro i msg hi
    rcases List.mem_append.mp hi with hi | hi
    · exact h.nonempty i msg hi
    · obtain ⟨rfl, rfl⟩ : i = calls ∧ msg = text := by simpa using hi
      exact htext
  lt_calls := by
    intro i msg hi
    rcases List.mem_append.mp hi with hi | hi
    · exact Nat.lt_succ_of_lt (h.lt_calls i msg hi)
    · obtain ⟨rfl, rfl⟩ : i = calls ∧ msg = text := by simpa using hi
      exact Nat.lt_succ_self _
  mem_accepted := by
    intro p c hc i hi
    have hmem : c ∈ view p ∨ c ∈ ofMessage calls text := by
      by_cases hp : p = path
      · subst hp
        simpa using hc
      · rw [Function.update_of_ne hp] at hc
        exact .inl hc
    rcases hmem with hc | hc
    · obtain ⟨msg, hmsg⟩ := h.mem_accepted p c hc i hi
      exact ⟨msg, List.mem_append_left _ hmsg⟩
    · obtain rfl : i = calls := Option.some.inj (hi.symm.trans (origin_of_mem_ofMessage hc))
      exact ⟨text, by simp⟩
  ordered := by
    intro p
    by_cases hp : p = path
    · subst hp
      rw [Function.update_self]
      refine (h.ordered p).append_block (fun c hc => origin_of_mem_ofMessage hc) ?_
      intro c hc j hj
      obtain ⟨msg, hmsg⟩ := h.mem_accepted p c hc j hj
      exact (h.lt_calls j msg hmsg).le
    · rw [Function.update_of_ne hp]
      exact h.ordered p

/-- Forgetting a clean view loses no message. -/
theorem truncate (h : Filed calls accepted used view) {path : String}
    (hclean : Clean (view path)) : Filed calls accepted used (Function.update view path []) where
  found := by
    intro i msg hi
    obtain ⟨p, hp, honce, habsent⟩ := h.found i msg hi
    have hpp : p ≠ path := by
      rintro rfl
      obtain ⟨c, hc, hci⟩ := exists_mem_ofMessage (h.nonempty i msg hi) i
      simp [hclean c (honce.mem hc)] at hci
    refine ⟨p, hp, by rwa [Function.update_of_ne hpp], fun p' hp' => ?_⟩
    by_cases hpp' : p' = path
    · subst hpp'; simp [Absent]
    · rw [Function.update_of_ne hpp']
      exact habsent p' hp'
  nonempty := h.nonempty
  lt_calls := h.lt_calls
  mem_accepted := by
    intro p c hc
    by_cases hp : p = path
    · subst hp; simp at hc
    · rw [Function.update_of_ne hp] at hc
      exact h.mem_accepted p c hc
  ordered := by
    intro p
    by_cases hp : p = path
    · subst hp; simp
    · rw [Function.update_of_ne hp]
      exact h.ordered p

theorem use (h : Filed calls accepted used view) (path : String) :
    Filed calls accepted (used ++ [path]) view :=
  { h with
    found := fun i msg hi =>
      have ⟨p, hp, hrest⟩ := h.found i msg hi
      ⟨p, List.mem_append_left _ hp, hrest⟩ }

end Filed

/-! ## One call -/

/-- The stream is open and writes where the view of its file ends. -/
structure Ready (σ : State) (out : OFStream) (view : String → List Cell) : Prop where
  shows : Shows σ.disk.files view
  outptr : σ.sink._outptr = some out
  isOpen : (σ.disk.files out.path).isSome
  offset : out.offset = (view out.path).length

/-- What holds of a run while no message is lost. -/
structure Inv (r : Run) (view : String → List Cell) : Prop where
  ready : ∃ out, out.path ∈ r.used ∧ Ready r.state out view
  filed : Filed r.calls r.accepted r.used view

theorem insert_eq {σ : State} {out : OFStream} (h : σ.sink._outptr = some out)
    (text : List Cell) :
    σ.insert text = some
      { sink := { σ.sink with _outptr := some (out.write text σ.disk).1 }
        disk := (out.write text σ.disk).2 } := by
  simp [State.insert, h]

theorem Ready.write {σ : State} {out : OFStream} {view : String → List Cell}
    (h : Ready σ out view) (text : List Cell) :
    Ready
      { sink := { σ.sink with _outptr := some (out.write text σ.disk).1 }
        disk := (out.write text σ.disk).2 }
      (out.write text σ.disk).1
      (Function.update view out.path (view out.path ++ text)) where
  shows := h.shows.write h.isOpen h.offset text
  outptr := rfl
  isOpen := by
    obtain ⟨cs, hcs⟩ := Option.isSome_iff_exists.mp h.isOpen
    simp [OFStream.write, hcs]
  offset := by simp [OFStream.write, h.offset]

/-- Writing the sink's own text keeps every message. -/
theorem Inv.insert_own {r : Run} {view : String → List Cell} (h : Inv r view) (text : String) :
    ∃ σ' view', r.state.insert (own text) = some σ' ∧ Inv { r with state := σ' } view' ∧
      σ'.sink = { r.state.sink with _outptr := σ'.sink._outptr } := by
  obtain ⟨out, hused, hready⟩ := h.ready
  refine ⟨_, Function.update view out.path (view out.path ++ own text),
    insert_eq hready.outptr _, ?_, rfl⟩
  exact ⟨⟨(out.write (own text) r.state.disk).1, hused, hready.write _⟩,
    h.filed.append_own out.path text⟩

theorem Inv.firstEntry {r : Run} {view : String → List Cell} (h : Inv r view) (env : Env)
    (now : Int) :
    ∃ σ' view', r.state.firstEntry env now = some σ' ∧ Inv { r with state := σ' } view' ∧
      σ'.sink.min_loglevel_ = r.state.sink.min_loglevel_ ∧
      σ'.sink._log_details_func = r.state.sink._log_details_func := by
  by_cases hf : r.state.sink._firstEntry = true
  · obtain ⟨σ', view', hσ', hinv, hsink⟩ :=
      h.insert_own (header env r.state.sink._header now)
    refine ⟨{ σ' with sink := { σ'.sink with _firstEntry := false } }, view', ?_, ?_, ?_⟩
    · simp [State.firstEntry, hf, State.addLogFileHeader, hσ']
    · obtain ⟨out, hused, hready⟩ := hinv.ready
      exact ⟨⟨out, hused, ⟨hready.shows, hready.outptr, hready.isOpen, hready.offset⟩⟩,
        hinv.filed⟩
    · rw [hsink]; exact ⟨rfl, rfl⟩
  · exact ⟨r.state, view, by simp [State.firstEntry, hf], h, rfl, rfl⟩

theorem Inv.fileWrite {r : Run} {view : String → List Cell} (h : Inv r view) (env : Env)
    (message : LogMessage) (now : Int) :
    ∃ r' view', step env r (.fileWrite message now) = some r' ∧ Inv r' view' := by
  obtain ⟨σ', view', hσ', hinv, hlevel, hfunc⟩ := h.firstEntry env now
  obtain ⟨out, hused, hready⟩ := hinv.ready
  simp only [step, State.fileWrite, hσ', Option.bind_eq_bind, Option.bind_some, hlevel, hfunc]
  by_cases hmin : message.level_value < r.state.sink.min_loglevel_.value
  · simp only [hmin, if_true, Option.bind_some]
    exact ⟨_, view', rfl, ⟨out, hused, hready⟩, hinv.filed.skip⟩
  · simp only [hmin, if_false, insert_eq hready.outptr, Option.bind_some]
    exact ⟨_, Function.update view' out.path (view' out.path ++ ofMessage r.calls _), rfl,
      ⟨(out.write _ σ'.disk).1, hused, hready.write _⟩,
      hinv.filed.append_message hused (LogMessage.formatted_ne_empty env _)⟩

/-- A change that cannot open its file leaves a notice. -/
theorem Inv.changeLogFile_failure {r : Run} {view : String → List Cell} (h : Inv r view)
    (env : Env) (directory logger_id : String) (level : LEVELS) (now nowName nowHeader : Int) :
    ∃ r' view',
      step env r (.changeLogFile directory logger_id level now nowName nowHeader false) =
        some r' ∧ Inv r' view' := by
  obtain ⟨σ', view', hσ', hinv, -⟩ := h.insert_own ("\n" ++ env.localtime_formatted now
    (date_formatted ++ " " ++ time_formatted) ++
    " Unable to change log file. Illegal filename or busy? " ++
    "Unsuccessful log name was: " ++ r.state.prospect_log env directory logger_id level nowName)
  refine ⟨{ r with state := σ', used := r.used ++ [σ'.fileName] }, view', ?_, ?_, ?_⟩
  · simp [step, State.changeLogFile, createLogFile, openLogFile, hσ']
  · obtain ⟨out, hused, hready⟩ := hinv.ready
    exact ⟨out, List.mem_append_left _ hused, hready⟩
  · exact hinv.filed.use _

/-- The old stream during a change: ready, unless the change has emptied its file. -/
structure Trailing (σ : State) (out : OFStream) (view : String → List Cell) : Prop where
  shows : Shows σ.disk.files view
  outptr : σ.sink._outptr = some out
  ready : view out.path ≠ [] → Ready σ out view

/-- The views with text of the sink's own added to them. -/
inductive Annotated (view : String → List Cell) : (String → List Cell) → Prop
  | refl : Annotated view view
  | own {view' : String → List Cell} (h : Annotated view view') (path text : String) :
      Annotated view (Function.update view' path (view' path ++ own text))

theorem Filed.annotated {calls : ℕ} {accepted : List (ℕ × String)} {used : List String}
    {view view' : String → List Cell} (h : Filed calls accepted used view)
    (hview : Annotated view view') : Filed calls accepted used view' := by
  induction hview with
  | refl => exact h
  | own _ path text ih => exact ih.append_own path text

/-- What the old stream still writes during a change is the sink's own, and leaves the new
file alone. -/
theorem Trailing.insert_own {σ : State} {out : OFStream} {view₀ view : String → List Cell}
    (h : Trailing σ out view) (hview₀ : Annotated view₀ view) (text : String) :
    ∃ σ' out' view', σ.insert (own text) = some σ' ∧ Trailing σ' out' view' ∧
      Annotated view₀ view' ∧ (∀ path, view path = [] → view' path = []) ∧
      (∀ path, (σ.disk.files path).isSome → (σ'.disk.files path).isSome) ∧
      σ'.sink = { σ.sink with _outptr := σ'.sink._outptr } := by
  have hsome : ∀ path, (σ.disk.files path).isSome →
      ((out.write (own text) σ.disk).2.files path).isSome := by
    intro path hpath
    by_cases hp : path = out.path
    · subst hp
      simpa [OFStream.write] using hpath
    · rwa [files_write_of_ne hp]
  by_cases hview : view out.path = []
  · exact ⟨_, (out.write (own text) σ.disk).1, view, insert_eq h.outptr _,
      ⟨h.shows.write_clean hview (clean_own text), rfl, fun hne => absurd hview hne⟩, hview₀,
      fun _ hp => hp, hsome, rfl⟩
  · have hready := (h.ready hview).write (own text)
    refine ⟨_, (out.write (own text) σ.disk).1, _, insert_eq h.outptr _,
      ⟨hready.shows, rfl, fun _ => hready⟩, hview₀.own out.path text, fun path hp => ?_,
      hsome, rfl⟩
    have hne : path ≠ out.path := fun heq => hview (heq ▸ hp)
    rwa [Function.update_of_ne hne]

/-- A change of file empties the view of the file it opens. -/
theorem Ready.changeLogFile_success {σ : State} {out : OFStream} {view : String → List Cell}
    (h : Ready σ out view) (env : Env) (directory logger_id : String) (level : LEVELS)
    (now nowName nowHeader : Int) {prospect : String}
    (hprospect : σ.prospect_log env directory logger_id level nowName = prospect) :
    ∃ σ' out' view',
      σ.changeLogFile env directory logger_id level now nowName nowHeader true =
        some (prospect, σ') ∧
      Ready σ' out' view' ∧ Annotated (Function.update view prospect []) view' ∧
      out'.path = prospect ∧ σ'.fileName = prospect := by
  let σ₁ : State :=
    { σ with disk := { σ.disk with files := Function.update σ.disk.files prospect (some []) } }
  let view₁ := Function.update view prospect []
  have htrailing : Trailing σ₁ out view₁ := by
    refine ⟨h.shows.truncate prospect, h.outptr, fun hne => ?_⟩
    have hp : out.path ≠ prospect := fun heq => hne (by simp [view₁, heq])
    refine ⟨h.shows.truncate prospect, h.outptr, ?_, ?_⟩
    · simpa [σ₁, Function.update_of_ne hp] using h.isOpen
    · simpa [view₁, Function.update_of_ne hp] using h.offset
  obtain ⟨σ₂, out₂, view₂, hσ₂, htrailing₂, hview₂, hempty₂, hsome₂, hsink₂⟩ :=
    htrailing.insert_own .refl (header env σ₁.sink._header nowHeader)
  let notice := env.localtime_formatted now (date_formatted ++ " " ++ time_formatted) ++
    "\n\tChanging log file from : " ++ σ₂.sink._log_file_with_path ++
    "\n\tto new location: " ++ prospect ++ "\n"
  obtain ⟨σ₃, out₃, view₃, hσ₃, htrailing₃, hview₃, hempty₃, hsome₃, -⟩ :=
    htrailing₂.insert_own hview₂ notice
  -- The new stream takes over: its file is open and its view empty.
  let σ₄ : State :=
    { σ₃ with sink :=
      { σ₃.sink with _log_file_with_path := prospect, _outptr := some ⟨prospect, 0⟩ } }
  have hready₄ : Ready σ₄ ⟨prospect, 0⟩ view₃ := by
    refine ⟨htrailing₃.shows, rfl, hsome₃ _ (hsome₂ _ (by simp [σ₁])), ?_⟩
    rw [hempty₃ _ (hempty₂ _ (by simp [view₁]))]
    rfl
  let last := env.localtime_formatted now (date_formatted ++ " " ++ time_formatted) ++
    "\n\tNew log file. The previous log file was at: " ++ σ₃.sink._log_file_with_path ++ "\n"
  have hσ₅ := insert_eq hready₄.outptr (own last)
  refine ⟨_, _, _, ?_, hready₄.write (own last), hview₃.own prospect last, rfl, rfl⟩
  simp only [State.changeLogFile, createLogFile, openLogFile, if_true, hprospect,
    Option.bind_eq_bind]
  change (σ₁.addLogFileHeader env nowHeader).bind _ = _
  rw [State.addLogFileHeader, hσ₂, Option.bind_some]
  change (σ₂.insert (own notice)).bind _ = _
  rw [hσ₃, Option.bind_some]
  change (σ₄.insert (own last)).bind _ = _
  rw [hσ₅, Option.bind_some]

/-- A change to a clean file keeps every message. -/
theorem Inv.changeLogFile_success {r : Run} {view : String → List Cell} (h : Inv r view)
    (env : Env) (directory logger_id : String) (level : LEVELS) (now nowName nowHeader : Int)
    (hclean : ∀ cs, r.state.disk.files
      (r.state.prospect_log env directory logger_id level nowName) = some cs → Clean cs) :
    ∃ r' view',
      step env r (.changeLogFile directory logger_id level now nowName nowHeader true) =
        some r' ∧ Inv r' view' := by
  obtain ⟨out, hused, hready⟩ := h.ready
  obtain ⟨σ, out', view', hσ, hready', hview', hpath, hname⟩ :=
    hready.changeLogFile_success env directory logger_id level now nowName nowHeader rfl
  have hfiled := (h.filed.truncate (hready.shows.clean hclean)).annotated hview'
  refine ⟨{ r with state := σ, used := r.used ++ [σ.fileName] }, view', ?_, ?_, ?_⟩
  · simp only [step, hσ, Option.bind_eq_bind, Option.bind_some]
  · refine ⟨out', ?_, hready'⟩
    rw [hpath, hname]
    exact List.mem_append_right _ (List.mem_singleton_self _)
  · exact hfiled.use _

/-- A call that opens no used file keeps every message, and finds its stream. -/
theorem Inv.step {r : Run} {view : String → List Cell} (h : Inv r view) (env : Env) (op : Op)
    (hfresh : OpensFresh env r op) : ∃ r' view', step env r op = some r' ∧ Inv r' view' := by
  cases op with
  | fileWrite message now => exact h.fileWrite env message now
  | fileName => exact ⟨r, view, rfl, h⟩
  | overrideLogDetails func =>
      obtain ⟨out, hused, hready⟩ := h.ready
      exact ⟨_, view, rfl, ⟨out, hused, hready.shows, hready.outptr, hready.isOpen,
        hready.offset⟩, h.filed⟩
  | overrideLogHeader change =>
      obtain ⟨out, hused, hready⟩ := h.ready
      exact ⟨_, view, rfl, ⟨out, hused, hready.shows, hready.outptr, hready.isOpen,
        hready.offset⟩, h.filed⟩
  | changeLogFile directory logger_id level now nowName nowHeader opens =>
      cases opens with
      | false => exact h.changeLogFile_failure env directory logger_id level now nowName nowHeader
      | true =>
          exact h.changeLogFile_success env directory logger_id level now nowName nowHeader hfresh

/-! ## Messages that are gone -/

/-- No file holds a byte of the message of call `i`. -/
def AbsentFrom (i : ℕ) (disk : Disk) : Prop :=
  ∀ path cs, disk.files path = some cs → Absent Cell.origin i cs

theorem AbsentFrom.insert {i : ℕ} {σ σ' : State} {text : List Cell} (h : AbsentFrom i σ.disk)
    (htext : Absent Cell.origin i text) (hσ' : σ.insert text = some σ') : AbsentFrom i σ'.disk := by
  simp only [State.insert, Option.map_eq_some_iff] at hσ'
  obtain ⟨out, -, rfl⟩ := hσ'
  intro path cs hcs
  by_cases hp : path = out.path
  · subst hp
    simp only [OFStream.write, Function.update_self, Option.map_eq_some_iff] at hcs
    obtain ⟨cs', hcs', rfl⟩ := hcs
    exact (h _ _ hcs').writeAt (by simp) htext _
  · change (out.write text σ.disk).2.files path = some cs at hcs
    rw [files_write_of_ne hp] at hcs
    exact h path cs hcs

theorem AbsentFrom.insert_own {i : ℕ} {σ σ' : State} {text : String} (h : AbsentFrom i σ.disk)
    (hσ' : σ.insert (own text) = some σ') : AbsentFrom i σ'.disk :=
  h.insert ((clean_own text).absent i) hσ'

theorem AbsentFrom.fileWrite {i call : ℕ} {σ σ' : State} (h : AbsentFrom i σ.disk) (hne : i ≠ call)
    {env : Env} {now : Int} {message : LogMessage}
    (hσ' : σ.fileWrite env now call message = some σ') : AbsentFrom i σ'.disk := by
  simp only [State.fileWrite, Option.bind_eq_bind, Option.bind_eq_some_iff] at hσ'
  obtain ⟨σ₁, hσ₁, hσ'⟩ := hσ'
  have h₁ : AbsentFrom i σ₁.disk := by
    unfold State.firstEntry at hσ₁
    split at hσ₁
    · obtain ⟨σ₂, hσ₂, rfl⟩ := Option.map_eq_some_iff.mp hσ₁
      have h₂ : AbsentFrom i σ₂.disk := AbsentFrom.insert_own h hσ₂
      exact h₂
    · rwa [← Option.some.inj hσ₁]
  split at hσ'
  · rwa [← Option.some.inj hσ']
  · exact h₁.insert (absent_ofMessage hne _) hσ'

/-- A change of file brings no message back, and empties the file it opens. -/
theorem absentFrom_changeLogFile {i : ℕ} {σ σ' : State} {env : Env}
    {directory logger_id name : String} {level : LEVELS} {now nowName nowHeader : Int}
    {opens : Bool}
    (h : ∀ path, opens = false ∨ path ≠ σ.prospect_log env directory logger_id level nowName →
      ∀ cs, σ.disk.files path = some cs → Absent Cell.origin i cs)
    (hσ' : σ.changeLogFile env directory logger_id level now nowName nowHeader opens =
      some (name, σ')) : AbsentFrom i σ'.disk := by
  cases opens with
  | false =>
      simp only [State.changeLogFile, createLogFile, openLogFile, Bool.false_eq_true, if_false,
        Option.bind_eq_bind, Option.bind_eq_some_iff, Option.some.injEq, Prod.mk.injEq] at hσ'
      obtain ⟨σ₁, hσ₁, -, rfl⟩ := hσ'
      have h₀ : AbsentFrom i σ.disk := fun path => h path (.inl rfl)
      exact AbsentFrom.insert_own h₀ hσ₁
  | true =>
      simp only [State.changeLogFile, createLogFile, openLogFile, if_true, Option.bind_eq_bind,
        Option.bind_eq_some_iff, Option.some.injEq, Prod.mk.injEq] at hσ'
      obtain ⟨σ₁, hσ₁, σ₂, hσ₂, σ₃, hσ₃, -, rfl⟩ := hσ'
      suffices h₂ : AbsentFrom i σ₂.disk from AbsentFrom.insert_own (by exact h₂) hσ₃
      suffices h₁ : AbsentFrom i σ₁.disk from AbsentFrom.insert_own h₁ hσ₂
      refine AbsentFrom.insert_own ?_ hσ₁
      intro path cs hcs
      by_cases hp : path = σ.prospect_log env directory logger_id level nowName
      · subst hp
        obtain rfl : [] = cs := by simpa using hcs
        simp [Absent]
      · refine h path (.inr hp) cs ?_
        simpa [Function.update_of_ne hp] using hcs

/-- An accepted message of which no byte is left. -/
structure Lost (i : ℕ) (r : Run) : Prop where
  accepted : ∃ text, (i, text) ∈ r.accepted ∧ text ≠ ""
  lt_calls : i < r.calls
  absent : AbsentFrom i r.state.disk

theorem Lost.not_kept {i : ℕ} {r : Run} (h : Lost i r) : ¬ Kept r := by
  intro hkept
  obtain ⟨text, hmem, hne⟩ := h.accepted
  obtain ⟨path, -, ⟨cs, hcs, honce⟩, -⟩ := hkept.found i text hmem
  obtain ⟨c, hc, hci⟩ := exists_mem_ofMessage hne i
  exact h.absent path cs hcs c (honce.mem hc) hci

/-- What is lost stays lost. -/
theorem Lost.step {i : ℕ} {r r' : Run} (h : Lost i r) {env : Env} {op : Op}
    (hr' : FileSink.step env r op = some r') : Lost i r' := by
  cases op with
  | fileWrite message now =>
      simp only [FileSink.step, Option.bind_eq_bind, Option.bind_eq_some_iff,
        Option.some.injEq] at hr'
      obtain ⟨σ, hσ, rfl⟩ := hr'
      obtain ⟨text, hmem, hne⟩ := h.accepted
      refine ⟨⟨text, ?_, hne⟩, Nat.lt_succ_of_lt h.lt_calls, h.absent.fileWrite h.lt_calls.ne hσ⟩
      dsimp only
      split
      · exact hmem
      · exact List.mem_append_left _ hmem
  | fileName =>
      rwa [← Option.some.inj hr']
  | overrideLogDetails func =>
      rw [← Option.some.inj hr']
      exact ⟨h.accepted, h.lt_calls, h.absent⟩
  | overrideLogHeader change =>
      rw [← Option.some.inj hr']
      exact ⟨h.accepted, h.lt_calls, h.absent⟩
  | changeLogFile directory logger_id level now nowName nowHeader opens =>
      simp only [FileSink.step, Option.bind_eq_bind, Option.bind_eq_some_iff,
        Option.some.injEq] at hr'
      obtain ⟨⟨name, σ⟩, hσ, rfl⟩ := hr'
      exact ⟨h.accepted, h.lt_calls, absentFrom_changeLogFile (fun path _ => h.absent path) hσ⟩

/-- A change to a file that holds a message loses it. -/
theorem Inv.lost_of_not_fresh {r r' : Run} {view : String → List Cell} (h : Inv r view)
    {env : Env} {op : Op} (hfresh : ¬ OpensFresh env r op)
    (hr' : FileSink.step env r op = some r') :
    ∃ i, Lost i r' := by
  cases op with
  | changeLogFile directory logger_id level now nowName nowHeader opens =>
      cases opens with
      | false => exact absurd trivial hfresh
      | true =>
          simp only [OpensFresh, Untagged, not_forall] at hfresh
          obtain ⟨cs, hcs, c, hc, horigin⟩ := hfresh
          obtain ⟨i, hi⟩ := Option.ne_none_iff_exists'.mp horigin
          obtain ⟨out, -, hready⟩ := h.ready
          obtain ⟨rest, hrest, rfl⟩ := (hready.shows _).2 cs hcs
          have hview := (List.mem_append.mp hc).resolve_right fun hc => by simp [hrest c hc] at hi
          obtain ⟨text, hmem⟩ := h.filed.mem_accepted _ c hview i hi
          obtain ⟨path, -, -, habsent⟩ := h.filed.found i text hmem
          have hpath : path = r.state.prospect_log env directory logger_id level nowName := by
            by_contra hne
            exact habsent _ (Ne.symm hne) c hview hi
          simp only [FileSink.step, Option.bind_eq_bind, Option.bind_eq_some_iff,
            Option.some.injEq] at hr'
          obtain ⟨⟨name, σ⟩, hσ, rfl⟩ := hr'
          refine ⟨i, ⟨text, hmem, h.filed.nonempty i text hmem⟩, h.filed.lt_calls i text hmem,
            absentFrom_changeLogFile (fun path' hp' cs' hcs' => ?_) hσ⟩
          obtain ⟨rest', hrest', rfl⟩ := (hready.shows path').2 cs' hcs'
          have hne : path' ≠ path := by rw [hpath]; exact hp'.resolve_left (by simp)
          exact absent_append.mpr ⟨habsent path' hne, hrest'.absent i⟩
  | _ => exact absurd trivial hfresh

/-! ## Runs -/

/-- A call on an open stream leaves it open, so no call dereferences null. -/
theorem exists_step {r : Run} (h : r.state.sink._outptr.isSome) (env : Env) (op : Op) :
    ∃ r', step env r op = some r' ∧ r'.state.sink._outptr.isSome := by
  obtain ⟨out, hout⟩ := Option.isSome_iff_exists.mp h
  cases op with
  | fileWrite message now =>
      have hfirst : ∃ σ, r.state.firstEntry env now = some σ ∧ σ.sink._outptr.isSome := by
        unfold State.firstEntry State.addLogFileHeader
        rw [insert_eq hout]
        split
        · exact ⟨_, rfl, rfl⟩
        · exact ⟨_, rfl, h⟩
      obtain ⟨σ, hσ, hopen⟩ := hfirst
      obtain ⟨out', hout'⟩ := Option.isSome_iff_exists.mp hopen
      simp only [step, State.fileWrite, hσ, Option.bind_eq_bind, Option.bind_some,
        insert_eq hout']
      split
      · exact ⟨_, rfl, hopen⟩
      · exact ⟨_, rfl, rfl⟩
  | fileName => exact ⟨r, rfl, h⟩
  | overrideLogDetails func => exact ⟨_, rfl, h⟩
  | overrideLogHeader change => exact ⟨_, rfl, h⟩
  | changeLogFile directory logger_id level now nowName nowHeader opens =>
      cases opens <;>
        simp only [step, State.changeLogFile, createLogFile, openLogFile, State.addLogFileHeader,
          State.insert, hout, Bool.false_eq_true, if_false, if_true, Option.bind_eq_bind,
          Option.map_some, Option.bind_some] <;>
        exact ⟨_, rfl, rfl⟩

theorem Filed.start (used : List String) : Filed 0 [] used fun _ => [] where
  found := by simp
  nonempty := by simp
  lt_calls := by simp
  mem_accepted := by simp
  ordered := by simp

theorem Inv.kept {r : Run} {view : String → List Cell} (h : Inv r view) : Kept r := by
  obtain ⟨out, -, hready⟩ := h.ready
  have hshown : ∀ path cs, r.state.disk.files path = some cs →
      ∃ rest, Clean rest ∧ cs = view path ++ rest := fun path => (hready.shows path).2
  refine ⟨fun i text hmem => ?_, fun path cs hcs => ?_⟩
  · obtain ⟨path, hused, honce, habsent⟩ := h.filed.found i text hmem
    refine ⟨path, hused, ?_, fun path' hne cs hcs => ?_⟩
    · cases hcs : r.state.disk.files path with
      | none =>
          obtain ⟨c, hc, -⟩ := exists_mem_ofMessage (h.filed.nonempty i text hmem) i
          simpa [(hready.shows path).1 hcs] using honce.mem hc
      | some cs =>
          obtain ⟨rest, hrest, rfl⟩ := hshown path cs hcs
          exact ⟨_, rfl, honce.append (hrest.absent i)⟩
    · obtain ⟨rest, hrest, rfl⟩ := hshown path' cs hcs
      exact absent_append.mpr ⟨habsent path' hne, hrest.absent i⟩
  · obtain ⟨rest, hrest, rfl⟩ := hshown path cs hcs
    exact (h.filed.ordered path).append_untagged hrest

/-- Calls made from a run on. -/
def runFrom (env : Env) (r : Run) (ops : List Op) : Option Run := ops.foldlM (step env) r

/-- Every change of file in the calls opens a file that holds no message then. -/
def OpensFreshAlong (env : Env) (r : Run) (ops : List Op) : Prop :=
  ∀ pre op, pre ++ [op] <+: ops → ∀ r₁, runFrom env r pre = some r₁ → OpensFresh env r₁ op

theorem opensFreshAlong_cons {env : Env} {r r' : Run} {op : Op} (hr' : step env r op = some r')
    (ops : List Op) :
    OpensFreshAlong env r (op :: ops) ↔ OpensFresh env r op ∧ OpensFreshAlong env r' ops := by
  have hrun (pre : List Op) : runFrom env r (op :: pre) = runFrom env r' pre := by
    simp [runFrom, hr']
  constructor
  · intro h
    refine ⟨h [] op (by simp) r rfl, fun pre op' hpre r₁ hr₁ => ?_⟩
    exact h (op :: pre) op' (by simpa using hpre) r₁ ((hrun pre).trans hr₁)
  · rintro ⟨hop, hops⟩ pre op' hpre r₁ hr₁
    cases pre with
    | nil =>
        obtain rfl : op' = op := by simpa using hpre
        obtain rfl : r = r₁ := Option.some.inj hr₁
        exact hop
    | cons op₀ pre =>
        obtain ⟨rfl, hpre'⟩ := List.cons_prefix_cons.mp hpre
        exact hops pre op' hpre' r₁ ((hrun pre).symm.trans hr₁)

theorem Lost.runFrom {i : ℕ} {r : Run} (h : Lost i r) (hopen : r.state.sink._outptr.isSome)
    (env : Env) (ops : List Op) : ∃ r', FileSink.runFrom env r ops = some r' ∧ Lost i r' := by
  induction ops generalizing r with
  | nil => exact ⟨r, rfl, h⟩
  | cons op ops ih =>
      obtain ⟨r₁, hr₁, hopen₁⟩ := exists_step hopen env op
      obtain ⟨r', hr', hlost⟩ := ih (h.step hr₁) hopen₁
      exact ⟨r', by simpa [FileSink.runFrom, hr₁] using hr', hlost⟩

theorem Inv.isOpen {r : Run} {view : String → List Cell} (h : Inv r view) :
    r.state.sink._outptr.isSome := by
  obtain ⟨out, -, hready⟩ := h.ready
  simp [hready.outptr]

/-- From a run that has kept every message, further calls keep them all exactly when
every change of file among them opens a file that holds no message. -/
theorem Inv.kept_runFrom_iff {r : Run} {view : String → List Cell} (h : Inv r view) (env : Env)
    (ops : List Op) :
    ∃ r', runFrom env r ops = some r' ∧ (Kept r' ↔ OpensFreshAlong env r ops) := by
  induction ops generalizing r view with
  | nil =>
      refine ⟨r, rfl, fun _ pre op hpre => ?_, fun _ => h.kept⟩
      simpa using hpre.length_le
  | cons op ops ih =>
      by_cases hfresh : OpensFresh env r op
      · obtain ⟨r₁, view₁, hr₁, hinv₁⟩ := h.step env op hfresh
        obtain ⟨r', hr', hiff⟩ := ih hinv₁
        refine ⟨r', by simpa [runFrom, hr₁] using hr', ?_⟩
        rw [hiff, opensFreshAlong_cons hr₁]
        exact ⟨fun h' => ⟨hfresh, h'⟩, fun h' => h'.2⟩
      · obtain ⟨r₁, hr₁, hopen₁⟩ := exists_step h.isOpen env op
        obtain ⟨i, hlost⟩ := h.lost_of_not_fresh hfresh hr₁
        obtain ⟨r', hr', hlost'⟩ := hlost.runFrom hopen₁ env ops
        refine ⟨r', by simpa [runFrom, hr₁] using hr', ?_⟩
        rw [opensFreshAlong_cons hr₁]
        exact ⟨fun hkept => absurd hkept hlost'.not_kept, fun h' => absurd h'.1 hfresh⟩

/-- A disk as it was before the sink was made. -/
def diskOf (bytes : String → Option (List Char)) (links : String → Option String) : Disk where
  files := fun path => (bytes path).map preexisting
  links := links

theorem files_relink_unless (c : Bool) (target link : String) (disk : Disk) :
    (if c = true then disk else relink target link disk).files = disk.files := by
  split <;> rfl

/-- What a constructed sink finds on the disk: its file emptied, the others as before. -/
theorem create_files {env : Env} {logPrefix log_directory logger_id : String} {level : LEVELS}
    {now : Int} {opens opensFallback : Bool} {disk : Disk} {σ : State}
    (hσ : create env logPrefix log_directory level logger_id now opens opensFallback disk =
      some σ) (hopen : σ.sink._outptr.isSome) :
    σ.sink._outptr = some ⟨σ.fileName, 0⟩ ∧
      σ.disk.files = Function.update disk.files σ.fileName (some []) := by
  unfold create at hσ
  simp only [createLogFile, openLogFile] at hσ
  split at hσ
  · simp at hσ
  · cases opens with
    | true =>
        obtain rfl := Option.some.inj hσ
        exact ⟨rfl, by simp only [if_true, files_relink_unless, State.fileName]⟩
    | false =>
        cases opensFallback with
        | true =>
            obtain rfl := Option.some.inj hσ
            exact ⟨rfl, by
              simp only [Bool.false_eq_true, if_false, if_true, files_relink_unless,
                State.fileName]⟩
        | false =>
            obtain rfl := Option.some.inj hσ
            simp at hopen

/-- A constructed sink with an open stream starts a run with nothing to lose. -/
theorem inv_start {env : Env} {logPrefix log_directory logger_id : String} {level : LEVELS}
    {now : Int} {opens opensFallback : Bool} {bytes : String → Option (List Char)}
    {links : String → Option String} {σ : State}
    (hσ : create env logPrefix log_directory level logger_id now opens opensFallback
      (diskOf bytes links) = some σ) (hopen : σ.sink._outptr.isSome) :
    Inv (start σ) fun _ => [] := by
  obtain ⟨houtptr, hfiles⟩ := create_files hσ hopen
  have hclean : ∀ path cs, σ.disk.files path = some cs → Clean cs := by
    intro path cs hcs
    by_cases hp : path = σ.fileName
    · obtain rfl : [] = cs := by simpa [hfiles, hp] using hcs
      simp
    · rw [hfiles, Function.update_of_ne hp] at hcs
      obtain ⟨b, -, rfl⟩ := Option.map_eq_some_iff.mp hcs
      simp
  refine ⟨⟨⟨σ.fileName, 0⟩, by simp [start], ?_, houtptr, by simp [start, hfiles], rfl⟩,
    Filed.start _⟩
  intro path
  exact ⟨fun _ => rfl, fun cs hcs => ⟨cs, hclean path cs hcs, rfl⟩⟩

/-- A run of a constructed sink never dereferences null, and finds every accepted
message, once, complete and in order, exactly when no change of file opens a path that
a message has been written to. -/
theorem kept_iff (env : Env) (logPrefix log_directory logger_id : String) (level : LEVELS)
    (now : Int) (opens opensFallback : Bool) (bytes : String → Option (List Char))
    (links : String → Option String) (σ : State)
    (hσ : create env logPrefix log_directory level logger_id now opens opensFallback
      (diskOf bytes links) = some σ)
    (hopen : σ.sink._outptr.isSome) (ops : List Op) :
    ∃ r, run env σ ops = some r ∧ (Kept r ↔ OpensFreshAlong env (start σ) ops) :=
  (inv_start hσ hopen).kept_runFrom_iff env ops

/-! ## Two names in one second -/

/-- When a call reads the clock, in the order it does. -/
def Op.times : Op → List Int
  | .fileWrite _ now => [now]
  | .changeLogFile _ _ _ now nowName nowHeader _ => [now, nowName, nowHeader]
  | _ => []

/-- One machine in the first second of 1970. -/
def epoch : Env where
  localtime_formatted := fun _ format =>
    if format = file_name_time_formatted then "19700101-000000"
    else if format = "%a %b %d %H:%M:%S %Y" then "Thu Jan 01 00:00:00 1970"
    else "0101 00:00:00.000000"
  nodename := "host"
  user := some "user"
  FLAGS_log_link := ""
  threadIdText := fun id => toString id
  customDetails := fun _ _ => ""

def createdAtEpoch : Option State :=
  create epoch "log" "/tmp/" G3LOG_INFO "" 0 true true (diskOf (fun _ => none) fun _ => none)

def sinkAtEpoch : State := createdAtEpoch.get (by decide +kernel)

theorem createdAtEpoch_eq : createdAtEpoch = some sinkAtEpoch := (Option.some_get _).symm

theorem sinkAtEpoch_isOpen : sinkAtEpoch.sink._outptr.isSome := by decide +kernel

/-- A run that changes file under another directory. -/
theorem kept_iff_elsewhere :
    ∃ r, run epoch sinkAtEpoch [.fileWrite greeting 0,
        .changeLogFile "/var/log/" "" G3LOG_INFO 0 0 0 true] = some r ∧
      (Kept r ↔ OpensFreshAlong epoch (start sinkAtEpoch) [.fileWrite greeting 0,
        .changeLogFile "/var/log/" "" G3LOG_INFO 0 0 0 true]) :=
  kept_iff epoch "log" "/tmp/" "" G3LOG_INFO 0 true true (fun _ => none) (fun _ => none)
    sinkAtEpoch createdAtEpoch_eq sinkAtEpoch_isOpen _

/-- The sink asked to change to the directory it is in: within the second the new name
is the old one, and the message written before is gone. -/
theorem change_in_same_second_loses_message :
    ¬ ∀ (env : Env) (logPrefix log_directory logger_id : String) (level : LEVELS) (now : Int)
      (opens opensFallback : Bool) (bytes : String → Option (List Char))
      (links : String → Option String) (σ : State) (ops : List Op) (r : Run),
      create env logPrefix log_directory level logger_id now opens opensFallback
          (diskOf bytes links) = some σ →
        σ.sink._outptr.isSome → (now :: ops.flatMap Op.times).Pairwise (· ≤ ·) →
        run env σ ops = some r → Kept r := by
  intro h
  let change : Op := .changeLogFile "/tmp/" "" G3LOG_INFO 0 0 0 true
  -- The file the sink would change to already holds the message.
  have hheld : ((run epoch sinkAtEpoch [.fileWrite greeting 0]).any fun r =>
      (r.state.disk.files (r.state.prospect_log epoch "/tmp/" "" G3LOG_INFO 0)).any fun cs =>
        cs.any fun c => c.origin.isSome) = true := by decide +kernel
  obtain ⟨r₁, hr₁, hfile⟩ := (Option.any_eq_true _ _).mp hheld
  obtain ⟨cs, hcs, hmem⟩ := (Option.any_eq_true _ _).mp hfile
  obtain ⟨c, hc, horigin⟩ := List.any_eq_true.mp hmem
  obtain ⟨r, hr, hiff⟩ := (inv_start createdAtEpoch_eq sinkAtEpoch_isOpen).kept_runFrom_iff
    epoch [.fileWrite greeting 0, change]
  have hkept : Kept r := h epoch "log" "/tmp/" "" G3LOG_INFO 0 true true _ _ sinkAtEpoch _ r
    createdAtEpoch_eq sinkAtEpoch_isOpen (by simp [Op.times, change]) hr
  have hfresh := hiff.mp hkept [.fileWrite greeting 0] change (by simp) r₁ hr₁
  simp [hfresh cs hcs c hc] at horigin

end FileSink
end G3log
