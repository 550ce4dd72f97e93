import G3log.Durability
import G3log.SinkLifetime

/-!
# File sinks behind handles

Clients add file sinks to a worker, save messages, and through the handles have the sinks
change files, all at once. Every sink has a thread of its own that the operations run on, and
all of them write to one disk. As long as each file is opened once, by one sink, every message
that a log call has run on is in one file of its sink, whole and in order, however often and
by whom files were changed in the meantime (`rotation_keeps_messages`); and when the worker
has been destroyed these are all the messages saved for the sink.

## Main definitions

* `Config`, `Request` -- what a `FileSink` is made with, and the calls through its handle.
* `FileWorker`, `FileWorker.step` -- the worker, its file sinks and the disk.
* `FileWorker.Fresh` -- each file is opened once.
* `OnDisk` -- the messages of a sink are in its files.
-/

namespace G3log

open Transition Overwrite

/-! ## The worker, its sinks and the disk -/

/-- The arguments of the constructor of `FileSink`. -/
structure Config where
  logPrefix : String
  log_directory : String
  level : LEVELS
  logger_id : String
  deriving DecidableEq

/-- A function that a client passes to `SinkHandle::call`. -/
inductive Request
  | fileName
  | overrideLogDetails (func : LogDetailsFunc)
  | overrideLogHeader (change : String)
  | changeLogFile (directory logger_id : String) (level : LEVELS)
  deriving DecidableEq

/-- What a step reads of the clock, and whether a file opens. -/
structure Moment where
  now : Int
  nowName : Int
  nowHeader : Int
  opens : Bool
  opensFallback : Bool

def Request.op (m : Moment) : Request → FileSink.Op
  | .fileName => .fileName
  | .overrideLogDetails func => .overrideLogDetails func
  | .overrideLogHeader change => .overrideLogHeader change
  | .changeLogFile directory logger_id level =>
      .changeLogFile directory logger_id level m.now m.nowName m.nowHeader m.opens

/-- A file sink, until it is destroyed, with its run so far and the files it has opened. -/
structure SinkFiles where
  config : Config
  sink : Option FileSink
  calls : ℕ
  accepted : List (ℕ × String)
  used : List String
  opened : List String

/-- A worker with its file sinks, the disk, and all files that have been opened. A client names
the operation that it wants done. -/
structure FileWorker where
  worker : State Config Request
  files : SinkId → Option SinkFiles
  disk : Disk
  opened : List String

/-- What a step does to a file sink. -/
inductive Deed
  | none
  | make (s : SinkId) (config : Config)
  | log (s : SinkId) (msg : LogMessage)
  | request (s : SinkId) (req : Request)
  | destroy (s : SinkId)

namespace State

/-- The constructor runs in the argument of `addSink`. -/
def made (σ : State Config Request) : Action → Option (SinkId × Config)
  | .client c fresh =>
      match (σ.clients c).pc, (σ.clients c).program with
      | .idle, .addSink config _ :: _ => some (fresh, config)
      | _, _ => none
  | _ => none

/-- The function of a call runs on the thread of the sink. -/
def requested (σ : State Config Request) : Action → Option (SinkId × Request)
  | .sink s =>
      match (σ.sinks s)._bg.func, (σ.sinks s)._real_sink with
      | some (.work (.call _ func)), some config => some (s, (func config).2)
      | _, _ => none
  | _ => none

def deed (σ : State Config Request) (a : Action) : Deed :=
  match σ.effect a, σ.made a, σ.requested a with
  | .log s msg, _, _ => .log s msg
  | .destroy s, _, _ => .destroy s
  | .none, some (s, config), _ => .make s config
  | .none, none, some (s, req) => .request s req
  | .none, none, none => .none

end State

namespace FileWorker

def create (env : Env) (m : Moment) (config : Config) (disk : Disk) : Option FileSink.State :=
  FileSink.create env config.logPrefix config.log_directory config.level config.logger_id m.now
    m.opens m.opensFallback disk

/-- `std::make_unique<FileSink>` -/
def make (env : Env) (m : Moment) (s : SinkId) (config : Config) (L : FileWorker) :
    Option FileWorker :=
  (create env m config L.disk).map fun σ =>
    { L with
      files := Function.update L.files s
        (some ⟨config, some σ.sink, 0, [], [σ.fileName], [σ.fileName]⟩)
      disk := σ.disk
      opened := L.opened ++ [σ.fileName] }

/-- An operation of a file sink. There is no result if it has been destroyed. -/
def exec (env : Env) (s : SinkId) (op : FileSink.Op) (L : FileWorker) : Option FileWorker := do
  let f ← L.files s
  let sink ← f.sink
  let r ← FileSink.step env ⟨⟨sink, L.disk⟩, f.calls, f.accepted, f.used⟩ op
  let path := (op.newLog env sink._log_prefix_backup).toList
  some
    { L with
      files := Function.update L.files s
        (some ⟨f.config, some r.state.sink, r.calls, r.accepted, r.used, f.opened ++ path⟩)
      disk := r.state.disk
      opened := L.opened ++ path }

/-- `_real_sink` is destroyed, unless it is null. -/
def destroy (env : Env) (now : Int) (s : SinkId) (L : FileWorker) : Option FileWorker :=
  match L.files s with
  | some { sink := some sink, config, calls, accepted, used, opened } =>
      (FileSink.State.destroy env now ⟨sink, L.disk⟩).map fun σ =>
        { L with
          files := Function.update L.files s (some ⟨config, none, calls, accepted, used, opened⟩)
          disk := σ.disk }
  | _ => some L

def perform (env : Env) (m : Moment) (L : FileWorker) : Deed → Option FileWorker
  | .none => some L
  | .make s config => L.make env m s config
  | .log s msg => L.exec env s (.fileWrite msg m.now)
  | .request s req => L.exec env s (req.op m)
  | .destroy s => L.destroy env m.now s

def step (env : Env) (L : FileWorker) (a : Action × Moment) : Option FileWorker :=
  (G3log.step L.worker a.1).bind fun worker =>
    (L.perform env a.2 (L.worker.deed a.1)).map fun L' => { L' with worker := worker }

/-- A file that a constructor or a change opens has not been opened before, and a constructor
opens one. -/
def OpensFresh (env : Env) (L : FileWorker) (m : Moment) : Deed → Prop
  | .make _ config => ∃ σ ∈ create env m config L.disk,
      σ.sink._outptr.isSome = true ∧ σ.fileName ∉ L.opened
  | .request s req => ∀ f ∈ L.files s, ∀ sink ∈ f.sink,
      ∀ path ∈ (req.op m).newLog env sink._log_prefix_backup, path ∉ L.opened
  | _ => True

instance (env : Env) (L : FileWorker) (m : Moment) : DecidablePred (L.OpensFresh env m)
  | .make _ config => inferInstanceAs (Decidable (∃ σ ∈ create env m config L.disk,
      σ.sink._outptr.isSome = true ∧ σ.fileName ∉ L.opened))
  | .request s req => inferInstanceAs (Decidable (∀ f ∈ L.files s, ∀ sink ∈ f.sink,
      ∀ path ∈ (req.op m).newLog env sink._log_prefix_backup, path ∉ L.opened))
  | .none | .log _ _ | .destroy _ => inferInstanceAs (Decidable True)

def Fresh (env : Env) (L : FileWorker) (a : Action × Moment) : Prop :=
  L.OpensFresh env a.2 (L.worker.deed a.1)

instance (env : Env) (L : FileWorker) : DecidablePred (L.Fresh env) := fun a =>
  inferInstanceAs (Decidable (L.OpensFresh env a.2 (L.worker.deed a.1)))

end FileWorker

/-- The runs of a worker that clients add file sinks to. -/
def fileWorker (env : Env) (disk : Disk) : System FileWorker (Action × Moment) where
  Start L := ∃ programs active, L = ⟨init programs active, fun _ => none, disk, []⟩
  step := FileWorker.step env

/-- Every message at or above the level that the log call of the sink has run on stands, as it
was formatted then, whole in one file that the sink has opened and in no other of them, and the
messages of a file are in order. No other sink has opened these files. -/
structure OnDisk (env : Env) (L : FileWorker) (s : SinkId) (f : SinkFiles) : Prop where
  found : ∀ i msg, (L.worker.sinks s).logged[i]? = some msg →
    f.config.level.value ≤ msg.level_value → ∃ func, ∃ path ∈ f.opened,
      (∃ cs, L.disk.files path = some cs ∧
        Once Cell.origin i (ofMessage i (msg.toString env func).1) cs) ∧
      ∀ path' ∈ f.opened, path' ≠ path → ∀ cs, L.disk.files path' = some cs →
        Absent Cell.origin i cs
  ordered : ∀ path ∈ f.opened, ∀ cs, L.disk.files path = some cs → TagsOrdered Cell.origin cs
  only : ∀ path ∈ f.opened, ∀ cs, L.disk.files path = some cs → ∀ c ∈ cs, ∀ i,
    c.origin = some i → ∃ msg, (L.worker.sinks s).logged[i]? = some msg ∧
      f.config.level.value ≤ msg.level_value
  apart : ∀ s' f', s' ≠ s → L.files s' = some f' → f.opened.Disjoint f'.opened

/-! ## One operation of a file sink -/

namespace FileSink

/-- Statements change the files that the stream is in or goes to. -/
theorem files_runNow {sts : List Stmt} {σ σ' : State} (h : runNow sts σ = some σ')
    {opened : List String} (hout : ∀ out ∈ σ.sink._outptr, out.path ∈ opened)
    (hmove : ∀ path, .moveStream path ∈ sts → path ∈ opened) {path : String}
    (hpath : path ∉ opened) : σ'.disk.files path = σ.disk.files path := by
  induction sts generalizing σ with
  | nil => rw [Option.some.inj h]
  | cons st sts ih =>
      obtain ⟨σ₁, hσ₁, hrest⟩ := Option.bind_eq_some_iff.mp h
      have hmove' : ∀ path, .moveStream path ∈ sts → path ∈ opened :=
        fun path hmem => hmove path (List.mem_cons_of_mem _ hmem)
      cases st with
      | insert text =>
          obtain ⟨out, hptr, rfl⟩ := Option.map_eq_some_iff.mp hσ₁
          have hmem := hout out hptr
          rw [ih hrest (by simpa [OFStream.write] using hmem) hmove']
          exact files_write_of_ne (by rintro rfl; exact hpath hmem) text σ.disk
      | flush =>
          obtain rfl := Option.some.inj hσ₁
          exact ih hrest hout hmove'
      | moveStream path' =>
          obtain rfl := Option.some.inj hσ₁
          have hmem := hmove path' List.mem_cons_self
          have hfiles := ih hrest (by simpa [State.moveStream] using hmem) hmove'
          exact hfiles

/-- An operation changes the file in use, and one that it opens. -/
theorem files_step {env : Env} {r r' : Run} {op : Op} (h : step env r op = some r')
    {opened : List String} (hout : ∀ out ∈ r.state.sink._outptr, out.path ∈ opened)
    {path : String}
    (hpath : path ∉ opened ++ (op.newLog env r.state.sink._log_prefix_backup).toList) :
    r'.state.disk.files path = r.state.disk.files path := by
  rw [step_eq_stmts] at h
  obtain ⟨σ, hσ, rfl⟩ := Option.map_eq_some_iff.mp h
  have hrecord : (op.record env { r with state := σ }).state.disk = σ.disk := by cases op <;> rfl
  have hopened : (op.opened env r.state).disk.files path = r.state.disk.files path := by
    unfold Op.opened
    cases hnew : op.newLog env r.state.sink._log_prefix_backup with
    | none => rfl
    | some new =>
        have hne : path ≠ new := by
          rintro rfl
          simp [hnew] at hpath
        exact Function.update_of_ne hne _ _
  rw [hrecord, ← hopened]
  refine files_runNow hσ (fun out hmem => ?_) (fun new hmem => ?_) hpath
  · rw [sink_opened] at hmem
    exact List.mem_append_left _ (hout out hmem)
  · rw [newLog_of_moveStream hmem]
    simp

theorem bytesOf_concat (written : List (String × Part)) (path : String) (part : Part) :
    (fun path' => bytesOf path' (written ++ [(path, part)])) =
      Function.update (fun path' => bytesOf path' written) path
        (bytesOf path written ++ part.cells) := by
  funext path'
  rw [bytesOf_append]
  by_cases hpath : path' = path
  · subst hpath
    rw [bytesOf_singleton, Function.update_self]
  · rw [bytesOf_singleton_of_ne (Ne.symm hpath), List.append_nil, Function.update_of_ne hpath]

/-- The parts that an operation writes leave every message where it is, and file a new one. -/
theorem Filed.step {env : Env} {r r' : Run} {op : Op} {written : List (String × Part)}
    (h : Filed r.calls r.accepted r.used fun path => bytesOf path written)
    (hused : r.state.fileName ∈ r.used) (hstep : FileSink.step env r op = some r') :
    Filed r'.calls r'.accepted r'.used
      fun path => bytesOf path (written ++ op.writes env r.calls r.state) := by
  have hown {calls : ℕ} {accepted : List (ℕ × String)} {used : List String}
      {written : List (String × Part)}
      (h : Filed calls accepted used fun path => bytesOf path written) (path : String)
      {part : Part} {text : String} (hpart : part.cells = own text) :
      Filed calls accepted used fun path' => bytesOf path' (written ++ [(path, part)]) := by
    rw [bytesOf_concat, hpart]
    exact h.append_own path text
  cases op with
  | fileWrite message now =>
      simp only [FileSink.step, Option.bind_eq_bind, Option.bind_eq_some_iff,
        Option.some.injEq] at hstep
      obtain ⟨σ, -, rfl⟩ := hstep
      have hheader : Filed r.calls r.accepted r.used fun path => bytesOf path (written ++
          if r.state.sink._firstEntry then
            [(r.state.fileName, Part.header (G3log.header env r.state.sink._header now))]
          else []) := by
        split
        · exact hown h _ rfl
        · simpa using h
      simp only [Op.writes]
      split
      · simpa using hheader.skip
      · rw [← List.append_assoc, bytesOf_concat]
        exact hheader.append_message hused (LogMessage.formatted_ne_empty env _)
  | fileName =>
      obtain rfl := Option.some.inj hstep
      simpa [Op.writes] using h
  | overrideLogDetails func =>
      obtain rfl := Option.some.inj hstep
      simpa [Op.writes] using h
  | overrideLogHeader change =>
      obtain rfl := Option.some.inj hstep
      simpa [Op.writes] using h
  | changeLogFile directory logger_id level now nowName nowHeader opens =>
      simp only [FileSink.step, Option.bind_eq_bind, Option.bind_eq_some_iff,
        Option.some.injEq] at hstep
      obtain ⟨⟨name, σ⟩, -, rfl⟩ := hstep
      cases opens with
      | false => exact (hown h _ rfl).use _
      | true =>
          simp only [Op.writes, if_true]
          rw [List.append_cons written, List.append_cons (written ++ _)]
          exact Filed.use (hown (hown (hown h _ rfl) _ rfl) _ rfl) _

/-- What the disk has elsewhere does not matter. -/
theorem Recorded.disk {written : List (String × Part)} {opened : List String} {sink : FileSink}
    {disk disk' : Disk} (h : Recorded written opened ⟨sink, disk⟩)
    (hdisk : ∀ path ∈ opened, disk'.files path = disk.files path) :
    Recorded written opened ⟨sink, disk'⟩ where
  fileName := h.fileName
  outptr := h.outptr
  files := fun path hpath => (hdisk path hpath).trans (h.files path hpath)
  written := h.written

/-- A change of file adds the file that is in use then to those used. -/
theorem used_step {env : Env} {r r' : Run} {op : Op} (h : step env r op = some r') :
    r'.used = r.used ∧ r'.state.fileName = r.state.fileName ∨
      r'.used = r.used ++ [r'.state.fileName] := by
  have hsink := sink_step h
  cases op with
  | fileWrite message now =>
      simp only [step, Option.bind_eq_bind, Option.bind_eq_some_iff, Option.some.injEq] at h
      obtain ⟨σ, -, rfl⟩ := h
      refine .inl ⟨rfl, ?_⟩
      rw [State.fileName, hsink]
      rfl
  | changeLogFile directory logger_id level now nowName nowHeader opens =>
      simp only [step, Option.bind_eq_bind, Option.bind_eq_some_iff, Option.some.injEq] at h
      obtain ⟨⟨name, σ⟩, -, rfl⟩ := h
      exact .inr rfl
  | _ =>
      obtain rfl := Option.some.inj h
      exact .inl ⟨rfl, rfl⟩

/-- The level of a sink is that of its constructor. -/
theorem min_loglevel_step {env : Env} {r r' : Run} {op : Op} (h : step env r op = some r') :
    r'.state.sink.min_loglevel_ = r.state.sink.min_loglevel_ := by
  rw [sink_step h]
  cases op with
  | changeLogFile directory logger_id level now nowName nowHeader opens => cases opens <;> rfl
  | _ => rfl

/-- The message that an operation logs. -/
def Op.logged : Op → List LogMessage
  | .fileWrite message _ => [message]
  | _ => []

end FileSink

/-! ## The files of one sink -/

/-- The messages that were accepted are those at or above the level among the ones logged. -/
structure Accepts (env : Env) (level : LEVELS) (logged : List LogMessage)
    (accepted : List (ℕ × String)) : Prop where
  sound : ∀ i text, (i, text) ∈ accepted →
    ∃ msg, logged[i]? = some msg ∧ level.value ≤ msg.level_value
  complete : ∀ i msg, logged[i]? = some msg → level.value ≤ msg.level_value →
    ∃ func, (i, (msg.toString env func).1) ∈ accepted

/-- A message is logged, and accepted unless it is below the level. -/
theorem Accepts.log {env : Env} {level : LEVELS} {logged : List LogMessage}
    {accepted : List (ℕ × String)} (h : Accepts env level logged accepted)
    (message : LogMessage) (func : LogDetailsFunc) :
    Accepts env level (logged ++ [message])
      (if message.level_value < level.value then accepted
        else accepted ++ [(logged.length, (message.toString env func).1)]) := by
  constructor
  · intro i text hi
    have hcases : (i, text) ∈ accepted ∨ i = logged.length ∧ level.value ≤ message.level_value := by
      split at hi
      · exact .inl hi
      · next hmin =>
          rcases List.mem_append.mp hi with hi | hi
          · exact .inl hi
          · exact .inr ⟨(Prod.mk.inj (List.mem_singleton.mp hi)).1, by omega⟩
    rcases hcases with hi | ⟨rfl, hlevel⟩
    · obtain ⟨msg, hmsg, hlevel⟩ := h.sound i text hi
      refine ⟨msg, ?_, hlevel⟩
      rw [List.getElem?_append_left (List.getElem?_eq_some_iff.mp hmsg).1]
      exact hmsg
    · exact ⟨message, List.getElem?_concat_length, hlevel⟩
  · intro i msg hi hlevel
    by_cases hlast : i < logged.length
    · rw [List.getElem?_append_left hlast] at hi
      obtain ⟨func', hmem⟩ := h.complete i msg hi hlevel
      refine ⟨func', ?_⟩
      split
      · exact hmem
      · exact List.mem_append_left _ hmem
    · obtain ⟨hlt, hmsg⟩ := List.getElem?_eq_some_iff.mp hi
      obtain rfl : i = logged.length := by
        simp only [List.length_append, List.length_singleton] at hlt
        omega
      obtain rfl : message = msg := by simpa using hmsg
      refine ⟨func, ?_⟩
      rw [if_neg (by omega)]
      exact List.mem_append_right _ (List.mem_singleton_self _)

theorem Accepts.step {env : Env} {logged : List LogMessage} {r r' : FileSink.Run}
    (h : Accepts env r.state.sink.min_loglevel_ logged r.accepted)
    (hcalls : r.calls = logged.length) {op : FileSink.Op}
    (hstep : FileSink.step env r op = some r') :
    Accepts env r.state.sink.min_loglevel_ (logged ++ op.logged) r'.accepted ∧
      r'.calls = (logged ++ op.logged).length := by
  cases op with
  | fileWrite message now =>
      simp only [FileSink.step, Option.bind_eq_bind, Option.bind_eq_some_iff,
        Option.some.injEq] at hstep
      obtain ⟨σ, -, rfl⟩ := hstep
      constructor
      · rw [hcalls]
        exact h.log message _
      · simp [FileSink.Op.logged, hcalls]
  | changeLogFile directory logger_id level now nowName nowHeader opens =>
      simp only [FileSink.step, Option.bind_eq_bind, Option.bind_eq_some_iff,
        Option.some.injEq] at hstep
      obtain ⟨⟨name, σ⟩, -, rfl⟩ := hstep
      simpa [FileSink.Op.logged] using ⟨h, hcalls⟩
  | _ =>
      obtain rfl := Option.some.inj hstep
      simpa [FileSink.Op.logged] using ⟨h, hcalls⟩

/-- The files that a sink has opened hold what was written to them. -/
structure Filing (env : Env) (disk : Disk) (k : Sink Config Request) (f : SinkFiles)
    (written : List (String × FileSink.Part)) : Prop where
  created : k.created = true
  gone : f.sink = none ↔ k._real_sink = none
  files : ∀ path ∈ f.opened, disk.files path = some (FileSink.bytesOf path written)
  used : ∀ path ∈ f.used, path ∈ f.opened
  alive : ∀ sink, f.sink = some sink → FileSink.Recorded written f.opened ⟨sink, disk⟩ ∧
    sink._log_file_with_path ∈ f.used ∧ sink.min_loglevel_ = f.config.level
  filed : FileSink.Filed f.calls f.accepted f.used fun path => FileSink.bytesOf path written
  calls : f.calls = k.logged.length
  accepts : Accepts env f.config.level k.logged f.accepted

namespace Filing
variable {env : Env} {disk disk' : Disk} {k k' : Sink Config Request} {f : SinkFiles}
  {written : List (String × FileSink.Part)}

/-- Nothing has happened to the sink and its files. -/
theorem other (h : Filing env disk k f written) (hcreated : k'.created = true)
    (hlogged : k'.logged = k.logged) (hreal : k'._real_sink = none ↔ k._real_sink = none)
    (hdisk : ∀ path ∈ f.opened, disk'.files path = disk.files path) :
    Filing env disk' k' f written where
  created := hcreated
  gone := h.gone.trans hreal.symm
  files := fun path hpath => (hdisk path hpath).trans (h.files path hpath)
  used := h.used
  alive := fun sink hsink =>
    have ⟨hrec, hrest⟩ := h.alive sink hsink
    ⟨hrec.disk hdisk, hrest⟩
  filed := h.filed
  calls := hlogged ▸ h.calls
  accepts := hlogged ▸ h.accepts

/-- The file sink does an operation. -/
theorem exec (h : Filing env disk k f written) {sink : FileSink} (hsink : f.sink = some sink)
    {op : FileSink.Op}
    (hfresh : ∀ path ∈ op.newLog env sink._log_prefix_backup, path ∉ f.opened)
    (hcreated : k'.created = true) (hreal : k'._real_sink ≠ none)
    (hlogged : k'.logged = k.logged ++ op.logged) :
    ∃ r, FileSink.step env ⟨⟨sink, disk⟩, f.calls, f.accepted, f.used⟩ op = some r ∧
      (∀ path ∉ f.opened ++ (op.newLog env sink._log_prefix_backup).toList,
        r.state.disk.files path = disk.files path) ∧
      ∃ written', Filing env r.state.disk k' ⟨f.config, some r.state.sink, r.calls, r.accepted,
        r.used, f.opened ++ (op.newLog env sink._log_prefix_backup).toList⟩ written' := by
  obtain ⟨hrec, hused, hlevel⟩ := h.alive sink hsink
  have hrec₀ : FileSink.Recorded written f.opened
      (FileSink.Run.mk ⟨sink, disk⟩ f.calls f.accepted f.used).state := hrec
  obtain ⟨r, hr, hrec'⟩ := hrec₀.step env op hfresh
  have haccepts : Accepts env sink.min_loglevel_ k.logged f.accepted := hlevel ▸ h.accepts
  obtain ⟨haccepts', hcalls'⟩ := Accepts.step (r := ⟨⟨sink, disk⟩, f.calls, f.accepted, f.used⟩)
    haccepts h.calls hr
  have hname : r.state.fileName ∈ r.used := by
    rcases FileSink.used_step hr with ⟨hused', hname'⟩ | hused'
    · rw [hused', hname']
      exact hused
    · rw [hused']
      exact List.mem_append_right _ (List.mem_singleton_self _)
  refine ⟨r, hr, fun path hpath => ?_, written ++ op.writes env f.calls ⟨sink, disk⟩, ?_⟩
  · refine FileSink.files_step hr (fun out hout => ?_) hpath
    obtain rfl := Option.some.inj (hrec.outptr.symm.trans hout)
    exact hrec.fileName
  · constructor
    · exact hcreated
    · simpa using hreal
    · exact hrec'.files
    · intro path hpath
      rcases FileSink.used_step hr with ⟨hused', -⟩ | hused'
      · rw [hused'] at hpath
        exact List.mem_append_left _ (h.used path hpath)
      · rw [hused'] at hpath
        rcases List.mem_append.mp hpath with hpath | hpath
        · exact List.mem_append_left _ (h.used path hpath)
        · rw [List.mem_singleton.mp hpath]
          exact hrec'.fileName
    · intro sink' hsink'
      obtain rfl := Option.some.inj hsink'
      exact ⟨hrec', hname, (FileSink.min_loglevel_step hr).trans hlevel⟩
    · have hfiled : FileSink.Filed
          (FileSink.Run.mk ⟨sink, disk⟩ f.calls f.accepted f.used).calls f.accepted f.used
          fun path => FileSink.bytesOf path written := h.filed
      exact hfiled.step hused hr
    · rw [hlogged]
      exact hcalls'
    · rw [hlogged, ← hlevel]
      exact haccepts'

/-- `~FileSink` leaves its line. -/
theorem destroy (h : Filing env disk k f written) {sink : FileSink} (hsink : f.sink = some sink)
    (now : Int) (hcreated : k'.created = true) (hreal : k'._real_sink = none)
    (hlogged : k'.logged = k.logged) :
    ∃ σ, FileSink.State.destroy env now ⟨sink, disk⟩ = some σ ∧
      (∀ path ∉ f.opened, σ.disk.files path = disk.files path) ∧
      ∃ written', Filing env σ.disk k' { f with sink := none } written' := by
  obtain ⟨hrec, hused, hlevel⟩ := h.alive sink hsink
  let exit : FileSink.Part := .notice (FileSink.exit_msg env now)
  obtain ⟨σ, hσ, hrec'⟩ := hrec.insert exit
  refine ⟨σ, hσ, fun path hpath => ?_, written ++ [(sink._log_file_with_path, exit)], ?_⟩
  · obtain ⟨out, hout, rfl⟩ := Option.map_eq_some_iff.mp hσ
    obtain rfl := Option.some.inj (hrec.outptr.symm.trans hout)
    exact files_write_of_ne (by rintro rfl; exact hpath hrec.fileName) _ disk
  · refine ⟨hcreated, by simp [hreal], hrec'.files, h.used, nofun, ?_, ?_, ?_⟩
    · rw [FileSink.bytesOf_concat]
      exact h.filed.append_own _ _
    · rw [hlogged]
      exact h.calls
    · rw [hlogged]
      exact h.accepts

end Filing

/-- A file sink that has just been made. -/
theorem filing_create {env : Env} {m : Moment} {config : Config} {disk : Disk}
    {σ : FileSink.State} (hσ : FileWorker.create env m config disk = some σ)
    (hopen : σ.sink._outptr.isSome) {k : Sink Config Request} (hcreated : k.created = true)
    (hreal : k._real_sink ≠ none) (hlogged : k.logged = []) :
    Filing env σ.disk k ⟨config, some σ.sink, 0, [], [σ.fileName], [σ.fileName]⟩ [] := by
  have hrec := FileSink.recorded_start hσ hopen
  obtain ⟨-, -, -, hlevel, -⟩ := FileSink.create_fields hσ
  refine ⟨hcreated, by simpa using hreal, hrec.files, fun _ => id, fun sink hsink => ?_,
    .start _, by rw [hlogged]; rfl, ?_⟩
  · obtain rfl := Option.some.inj hsink
    exact ⟨hrec, List.mem_singleton_self _, hlevel⟩
  · rw [hlogged]
    exact ⟨by simp, by simp⟩

/-! ## What a step does to the sinks of the worker -/

section
variable {σ σ' : State Config Request} {a : Action} {s : SinkId}

theorem made_eq_some {config : Config} (h : σ.made a = some (s, config)) :
    ∃ c call rest, a = .client c s ∧ (σ.clients c).pc = .idle ∧
      (σ.clients c).program = .addSink config call :: rest := by
  cases a with
  | client c fresh =>
      simp only [State.made] at h
      split at h
      · next hpc hprogram =>
          obtain ⟨rfl, rfl⟩ := Prod.mk.inj (Option.some.inj h)
          exact ⟨c, _, _, rfl, hpc, hprogram⟩
      · cases h
  | _ => cases h

/-- The sink that a client makes. -/
theorem sink_of_made {config : Config} (hmade : σ.made a = some (s, config))
    (h : Step σ a σ') : (σ.sinks s).created = false ∧ (σ'.sinks s).created = true ∧
      (σ'.sinks s)._real_sink ≠ none ∧ (σ'.sinks s).logged = [] := by
  obtain ⟨c, call, rest, rfl, hpc, hprogram⟩ := made_eq_some hmade
  cases h with
  | client _ hs =>
      cases hs with
      | make _ _ hfresh =>
          refine ⟨hfresh, ?_⟩
          simp only [State.setClient, State.setSink, Function.update_self]
          exact ⟨rfl, nofun, rfl⟩
      | save _ hprogram' | lock _ hprogram' | gone _ hprogram' | fatal _ hprogram'
      | destroy _ hprogram' => simp [hprogram] at hprogram'
      | destroyShared hpc' => simp [hpc] at hpc'
      | _ hpc' => simp [hpc] at hpc'

/-- Nobody else makes a sink. -/
theorem created_eq_of_made (h : Step σ a σ') (hmade : ∀ config, σ.made a ≠ some (s, config)) :
    (σ'.sinks s).created = (σ.sinks s).created := by
  refine h.created_eq_of_makes fun c ha => ?_
  subst ha
  simp only [State.made, State.makes] at hmade ⊢
  split <;> simp_all

theorem made_eq_none (h : σ.effect a ≠ .none) : σ.made a = none := by
  cases hmade : σ.made a with
  | none => rfl
  | some made =>
      obtain ⟨c, call, rest, rfl, hpc, -⟩ := made_eq_some hmade
      simp [State.effect, hpc] at h

theorem created_of_log {msg : LogMessage} (h : σ.effect a = .log s msg) (hs : Step σ a σ') :
    (σ.sinks s).created = true := by
  cases hs with
  | sink _ hs =>
      simp only [State.effect] at h
      split at h
      · obtain ⟨rfl, -⟩ := Effect.log.inj h
        cases hs <;> assumption
      · cases h
  | client | worker =>
      simp only [State.effect] at h
      split at h <;> cases h
  | _ => cases h

theorem requested_eq_some {req : Request} (h : σ.requested a = some (s, req))
    (hs : Step σ a σ') : (σ.sinks s).created = true ∧ (σ.sinks s)._real_sink ≠ none := by
  cases a with
  | sink s' =>
      simp only [State.requested] at h
      split at h
      · next hreal =>
          obtain ⟨rfl, -⟩ := Prod.mk.inj (Option.some.inj h)
          refine ⟨?_, by simp [hreal]⟩
          cases hs with
          | sink _ hs => cases hs <;> assumption
      · cases h
  | _ => cases h

end

/-! ## All of them on one disk -/

/-- Every file sink files its messages, in files that no other sink has opened. -/
structure Filings (env : Env) (L : FileWorker) : Prop where
  created : ∀ s, (L.worker.sinks s).created = true ↔ (L.files s).isSome
  filing : ∀ s f, L.files s = some f →
    ∃ written, Filing env L.disk (L.worker.sinks s) f written
  opened : ∀ s f, L.files s = some f → ∀ path ∈ f.opened, path ∈ L.opened
  apart : ∀ s s' f f', s' ≠ s → L.files s = some f → L.files s' = some f' →
    f.opened.Disjoint f'.opened

namespace Filings
variable {env : Env} {L : FileWorker}

/-- A sink that a step is not about. -/
theorem other (h : Filings env L) {s : SinkId} {f : SinkFiles} (hf : L.files s = some f)
    {effect : Effect} {k : Sink Config Request}
    (htouched : Touched s (L.worker.sinks s) effect k) (hlogs : effect.logs s = [])
    (hdestroy : effect ≠ .destroy s) {disk : Disk}
    (hdisk : ∀ path ∈ f.opened, disk.files path = L.disk.files path) :
    ∃ written, Filing env disk k f written := by
  obtain ⟨written, hfiling⟩ := h.filing s f hf
  refine ⟨written, hfiling.other (htouched.created hfiling.created) ?_ ?_ hdisk⟩
  · rw [htouched.logged, hlogs, List.append_nil]
  · simp [htouched.gone hfiling.created, hdestroy]

/-- A step that is about one sink, and the files it opens. -/
theorem update (h : Filings env L) {s₁ : SinkId} {effect : Effect}
    {worker : State Config Request}
    (htouched : ∀ s ≠ s₁, Touched s (L.worker.sinks s) effect (worker.sinks s))
    (hcreated : ∀ s ≠ s₁, (worker.sinks s).created = (L.worker.sinks s).created)
    (heffect : ∀ s ≠ s₁, effect.logs s = [] ∧ effect ≠ .destroy s) {f₁ : SinkFiles} {disk : Disk}
    (hfiling : ∃ written, Filing env disk (worker.sinks s₁) f₁ written) (new : List String)
    (hdisk : ∀ path ∈ L.opened, path ∉ f₁.opened → disk.files path = L.disk.files path)
    (hopened : ∀ path ∈ f₁.opened, path ∈ new ∨ ∃ f, L.files s₁ = some f ∧ path ∈ f.opened)
    (hnew : ∀ path ∈ new, path ∉ L.opened) :
    Filings env ⟨worker, Function.update L.files s₁ (some f₁), disk, L.opened ++ new⟩ := by
  have hapart : ∀ s f, s ≠ s₁ → L.files s = some f → f.opened.Disjoint f₁.opened := by
    intro s f hs hf path hpath hpath₁
    rcases hopened path hpath₁ with hmem | ⟨f', hf', hmem⟩
    · exact hnew path hmem (h.opened s f hf path hpath)
    · exact h.apart s s₁ f f' (Ne.symm hs) hf hf' hpath hmem
  have hfiles : ∀ s f, Function.update L.files s₁ (some f₁) s = some f →
      s = s₁ ∧ f = f₁ ∨ s ≠ s₁ ∧ L.files s = some f := by
    intro s f hf
    by_cases hs : s = s₁
    · subst hs
      exact .inl ⟨rfl, by simpa using hf.symm⟩
    · rw [Function.update_of_ne hs] at hf
      exact .inr ⟨hs, hf⟩
  constructor
  · intro s
    by_cases hs : s = s₁
    · subst hs
      obtain ⟨written, hfiling⟩ := hfiling
      simp [hfiling.created]
    · simp only [Function.update_of_ne hs, hcreated s hs]
      exact h.created s
  · intro s f hf
    rcases hfiles s f hf with ⟨rfl, rfl⟩ | ⟨hs, hf⟩
    · exact hfiling
    · refine h.other hf (htouched s hs) (heffect s hs).1 (heffect s hs).2 fun path hpath => ?_
      exact hdisk path (h.opened s f hf path hpath) fun hpath₁ => hapart s f hs hf hpath hpath₁
  · intro s f hf path hpath
    rcases hfiles s f hf with ⟨rfl, rfl⟩ | ⟨hs, hf⟩
    · rcases hopened path hpath with hmem | ⟨f', hf', hmem⟩
      · exact List.mem_append_right _ hmem
      · exact List.mem_append_left _ (h.opened s f' hf' path hmem)
    · exact List.mem_append_left _ (h.opened s f hf path hpath)
  · intro s s' f f' hne hf hf'
    rcases hfiles s f hf with ⟨rfl, rfl⟩ | ⟨hs, hold⟩ <;>
      rcases hfiles s' f' hf' with ⟨rfl, rfl⟩ | ⟨hs', hold'⟩
    · exact absurd rfl hne
    · exact (hapart s' f' hs' hold').symm
    · exact hapart s f hs hold
    · exact h.apart s s' f f' hne hold hold'

/-- What an operation of a file sink leaves. -/
theorem exec (h : Filings env L) {s : SinkId} {effect : Effect} {worker : State Config Request}
    {op : FileSink.Op} (hcreated : (L.worker.sinks s).created = true)
    (hreal : (L.worker.sinks s)._real_sink ≠ none)
    (htouched : ∀ s, Touched s (L.worker.sinks s) effect (worker.sinks s))
    (hothers : ∀ s, (worker.sinks s).created = (L.worker.sinks s).created)
    (heffect : ∀ s' ≠ s, effect.logs s' = []) (hdestroy : ∀ s, effect ≠ .destroy s)
    (hlogs : effect.logs s = op.logged)
    (hfresh : ∀ f ∈ L.files s, ∀ sink ∈ f.sink,
      ∀ path ∈ op.newLog env sink._log_prefix_backup, path ∉ L.opened) :
    ∃ L', L.exec env s op = some L' ∧ Filings env { L' with worker := worker } := by
  obtain ⟨f, hf⟩ := Option.isSome_iff_exists.mp ((h.created s).mp hcreated)
  obtain ⟨written, hfiling⟩ := h.filing s f hf
  obtain ⟨sink, hsink⟩ := Option.ne_none_iff_exists'.mp fun hnone => hreal (hfiling.gone.mp hnone)
  have hnew : ∀ path ∈ op.newLog env sink._log_prefix_backup, path ∉ L.opened :=
    hfresh f hf sink hsink
  have hcreated' : (worker.sinks s).created = true := (hothers s).trans hcreated
  have hreal' : (worker.sinks s)._real_sink ≠ none := by
    rw [Ne, (htouched s).gone hcreated]
    exact fun hgone => hgone.elim hreal (hdestroy s)
  obtain ⟨r, hr, hframe, hfiling'⟩ := hfiling.exec hsink
    (fun path hpath hmem => hnew path hpath (h.opened s f hf path hmem)) hcreated' hreal'
    (by rw [(htouched s).logged, hlogs])
  have hexec : L.exec env s op = some
      { L with
        files := Function.update L.files s (some ⟨f.config, some r.state.sink, r.calls, r.accepted,
          r.used, f.opened ++ (op.newLog env sink._log_prefix_backup).toList⟩)
        disk := r.state.disk
        opened := L.opened ++ (op.newLog env sink._log_prefix_backup).toList } := by
    simp [FileWorker.exec, hf, hsink, hr]
  refine ⟨_, hexec, ?_⟩
  refine h.update (fun s _ => htouched s) (fun s _ => hothers s)
    (fun s hs => ⟨heffect s hs, hdestroy s⟩) hfiling' _ ?_ ?_ ?_
  · exact fun path _ hpath => hframe path hpath
  · intro path hpath
    rcases List.mem_append.mp hpath with hpath | hpath
    · exact .inr ⟨f, hf, hpath⟩
    · exact .inl hpath
  · intro path hpath
    exact hnew path (Option.mem_toList.mp hpath)

/-- A step that leaves the file sinks alone. -/
theorem keep (h : Filings env L) {effect : Effect} {worker : State Config Request}
    (htouched : ∀ s, Touched s (L.worker.sinks s) effect (worker.sinks s))
    (hcreated : ∀ s, (worker.sinks s).created = (L.worker.sinks s).created)
    (hlogs : ∀ s, effect.logs s = [])
    (hdestroy : ∀ s, effect = .destroy s → ∀ f ∈ L.files s, f.sink = none) :
    Filings env { L with worker := worker } where
  created := fun s => by
    rw [hcreated]
    exact h.created s
  filing := by
    intro s f hf
    obtain ⟨written, hfiling⟩ := h.filing s f hf
    refine ⟨written, hfiling.other ((htouched s).created hfiling.created) ?_ ?_ fun _ _ => rfl⟩
    · rw [(htouched s).logged, hlogs, List.append_nil]
    · rw [(htouched s).gone hfiling.created]
      exact ⟨fun hgone => hgone.elim id fun heq => hfiling.gone.mp (hdestroy s heq f hf), .inl⟩
  opened := h.opened
  apart := h.apart

/-- What a destructor leaves. -/
theorem destroy (h : Filings env L) {s : SinkId} {worker : State Config Request} (now : Int)
    (htouched : ∀ s', Touched s' (L.worker.sinks s') (.destroy s) (worker.sinks s'))
    (hothers : ∀ s, (worker.sinks s).created = (L.worker.sinks s).created) :
    ∃ L', L.destroy env now s = some L' ∧ Filings env { L' with worker := worker } := by
  have hnull (hnone : ∀ f ∈ L.files s, f.sink = none) :
      Filings env { L with worker := worker } := by
    refine h.keep htouched hothers (fun _ => rfl) fun s' hs f hf => ?_
    obtain rfl := Effect.destroy.inj hs
    exact hnone f hf
  cases hf : L.files s with
  | none => exact ⟨L, by simp [FileWorker.destroy, hf], hnull (by simp [hf])⟩
  | some f =>
      obtain ⟨config, sink, calls, accepted, used, opened⟩ := f
      cases sink with
      | none => exact ⟨L, by simp [FileWorker.destroy, hf], hnull (by simp [hf])⟩
      | some sink =>
          obtain ⟨written, hfiling⟩ := h.filing s _ hf
          have hcreated' : (worker.sinks s).created = true := (hothers s).trans hfiling.created
          have hreal' : (worker.sinks s)._real_sink = none :=
            ((htouched s).gone hfiling.created).mpr (.inr rfl)
          obtain ⟨σ, hσ, hframe, hfiling'⟩ := hfiling.destroy rfl now hcreated' hreal'
            (by rw [(htouched s).logged, Effect.logs_destroy, List.append_nil])
          have hexec : L.destroy env now s = some
              { L with
                files := Function.update L.files s
                  (some ⟨config, none, calls, accepted, used, opened⟩)
                disk := σ.disk } := by
            simp only [FileWorker.destroy, hf]
            rw [hσ]
            rfl
          refine ⟨_, hexec, ?_⟩
          have hfilings := h.update (fun s _ => htouched s) (fun s _ => hothers s)
            (fun s' hs => ⟨rfl, by simpa using Ne.symm hs⟩) hfiling' []
            (fun path _ hpath => hframe path hpath) (fun path hpath => .inr ⟨_, hf, hpath⟩)
            (by simp)
          rwa [List.append_nil] at hfilings

/-- What a constructor leaves. -/
theorem make (h : Filings env L) {m : Moment} {s : SinkId} {config : Config}
    {worker : State Config Request}
    (hmade : (worker.sinks s).created = true ∧ (worker.sinks s)._real_sink ≠ none ∧
      (worker.sinks s).logged = [])
    (htouched : ∀ s', Touched s' (L.worker.sinks s') .none (worker.sinks s'))
    (hothers : ∀ s' ≠ s, (worker.sinks s').created = (L.worker.sinks s').created)
    (hfresh : ∃ σ ∈ FileWorker.create env m config L.disk,
      σ.sink._outptr.isSome = true ∧ σ.fileName ∉ L.opened) :
    ∃ L', L.make env m s config = some L' ∧ Filings env { L' with worker := worker } := by
  obtain ⟨σ, hσ, hopen, hnew⟩ := hfresh
  have hσ : FileWorker.create env m config L.disk = some σ := hσ
  have hexec : L.make env m s config = some
      { L with
        files := Function.update L.files s
          (some ⟨config, some σ.sink, 0, [], [σ.fileName], [σ.fileName]⟩)
        disk := σ.disk
        opened := L.opened ++ [σ.fileName] } := by
    simp [FileWorker.make, hσ]
  refine ⟨_, hexec, ?_⟩
  have hfiles := (FileSink.create_files hσ hopen).2
  refine h.update (fun s _ => htouched s) hothers (fun s' _ => ⟨rfl, nofun⟩)
    ⟨[], filing_create hσ hopen hmade.1 hmade.2.1 hmade.2.2⟩ [σ.fileName] ?_ ?_ ?_
  · intro path _ hpath
    rw [hfiles, Function.update_of_ne (by simpa using hpath)]
  · exact fun path hpath => .inl hpath
  · intro path hpath
    rw [List.mem_singleton.mp hpath]
    exact hnew

/-- Whenever the worker can take a step that opens no file again, so can it with its file
sinks. -/
theorem step (h : Filings env L) (ho : Owned L.worker) {a : Action × Moment}
    {worker : State Config Request} (hs : G3log.step L.worker a.1 = some worker)
    (hfresh : L.Fresh env a) :
    ∃ L', FileWorker.step env L a = some L' ∧ L'.worker = worker ∧ Filings env L' := by
  have hstep := (step_cases hs).2
  have htouched := hstep.touches ho
  have hperform : ∃ L₁, L.perform env a.2 (L.worker.deed a.1) = some L₁ ∧
      Filings env { L₁ with worker := worker } := by
    simp only [FileWorker.Fresh, State.deed] at hfresh ⊢
    cases heffect : L.worker.effect a.1 with
    | log s msg =>
        have hmade : L.worker.made a.1 = none := made_eq_none (by simp [heffect])
        rw [heffect] at htouched
        refine h.exec (created_of_log heffect hstep) ((htouched s).real msg rfl) htouched
          (fun s => created_eq_of_made hstep (by simp [hmade])) (fun s' hs => ?_)
          (fun _ => by simp) ?_ ?_
        · simp [Effect.logs, Ne.symm hs]
        · simp [Effect.logs, FileSink.Op.logged]
        · simp [FileSink.Op.newLog]
    | destroy s =>
        have hmade : L.worker.made a.1 = none := made_eq_none (by simp [heffect])
        rw [heffect] at htouched
        exact h.destroy a.2.now htouched fun s => created_eq_of_made hstep (by simp [hmade])
    | none =>
        rw [heffect] at htouched hfresh
        cases hmade : L.worker.made a.1 with
        | some made =>
            obtain ⟨s, config⟩ := made
            rw [hmade] at hfresh
            obtain ⟨-, hnew⟩ := sink_of_made hmade hstep
            refine h.make hnew htouched (fun s' hs => created_eq_of_made hstep ?_) hfresh
            simp [hmade, Ne.symm hs]
        | none =>
            rw [hmade] at hfresh
            have hothers := fun s => created_eq_of_made hstep (s := s) (by simp [hmade])
            have hkept : ∀ s, Effect.none ≠ .destroy s := by simp
            cases hrequested : L.worker.requested a.1 with
            | some requested =>
                obtain ⟨s, req⟩ := requested
                rw [hrequested] at hfresh
                obtain ⟨hcreated, hreal⟩ := requested_eq_some hrequested hstep
                refine h.exec hcreated hreal htouched hothers (fun _ _ => rfl) hkept ?_ hfresh
                cases req <;> rfl
            | none =>
                exact ⟨L, rfl, h.keep htouched hothers (fun _ => rfl) fun s hs => (hkept s hs).elim⟩
  obtain ⟨L₁, hL₁, hfilings⟩ := hperform
  exact ⟨{ L₁ with worker := worker }, by simp [FileWorker.step, hs, hL₁], rfl, hfilings⟩

end Filings

/-! ## Whole runs -/

theorem Filing.onDisk {env : Env} {L : FileWorker} {s : SinkId} {f : SinkFiles}
    {written : List (String × FileSink.Part)}
    (h : Filing env L.disk (L.worker.sinks s) f written)
    (hapart : ∀ s' f', s' ≠ s → L.files s' = some f' → f.opened.Disjoint f'.opened) :
    OnDisk env L s f where
  found := by
    intro i msg hi hlevel
    obtain ⟨func, hmem⟩ := h.accepts.complete i msg hi hlevel
    obtain ⟨path, hused, honce, habsent⟩ := h.filed.found i _ hmem
    refine ⟨func, path, h.used path hused, ⟨_, h.files path (h.used path hused), honce⟩, ?_⟩
    intro path' hpath' hne cs hcs
    obtain rfl := Option.some.inj ((h.files path' hpath').symm.trans hcs)
    exact habsent path' hne
  ordered := by
    intro path hpath cs hcs
    obtain rfl := Option.some.inj ((h.files path hpath).symm.trans hcs)
    exact h.filed.ordered path
  only := by
    intro path hpath cs hcs c hc i hi
    obtain rfl := Option.some.inj ((h.files path hpath).symm.trans hcs)
    obtain ⟨text, hmem⟩ := h.filed.mem_accepted path c hc i hi
    exact h.accepts.sound i text hmem
  apart := hapart

theorem Filings.init (env : Env) (programs : ClientId → List (Op Config Request)) (active : Bool)
    (disk : Disk) :
    Filings env ⟨G3log.init programs active, fun _ => none, disk, []⟩ where
  created := fun s => by simp [G3log.init, Sink.unmade]
  filing := fun s f hf => by cases hf
  opened := fun s f hf => by cases hf
  apart := fun s s' f f' _ hf => by cases hf

theorem filings {env : Env} {disk : Disk} {L : FileWorker}
    (h : (fileWorker env disk).ReachableBy (FileWorker.Fresh env) L) :
    (logWorker Config Request).Reachable L.worker ∧ Filings env L := by
  refine h.invariant (P := fun L => (logWorker Config Request).Reachable L.worker ∧ Filings env L)
    (fun L hL => ?_) fun L a L' _ hfresh hL hs => ?_
  · obtain ⟨programs, active, rfl⟩ := hL
    exact ⟨.start ⟨programs, active, rfl⟩, .init env programs active disk⟩
  · obtain ⟨hreach, hfilings⟩ := hL
    obtain ⟨worker, hworker, -⟩ := Option.bind_eq_some_iff.mp hs
    obtain ⟨L₁, hL₁, rfl, hfilings'⟩ := hfilings.step (owned hreach) hworker hfresh
    obtain rfl : L₁ = L' := Option.some.inj (hL₁.symm.trans hs)
    exact ⟨.step hreach trivial hworker, hfilings'⟩

/-- A sink whose files are changed while it logs. -/
structure Rotates (env : Env) (L : FileWorker) (s : SinkId) (f : SinkFiles) : Prop extends
    OnDisk env L s f where
  /-- The log call runs on the messages saved for the sink, one after the other, -/
  logged : (L.worker.sinks s).logged <+: L.worker.enqueuedFor s
  /-- among them every one that is saved while clients have handles, -/
  saved : ∀ c msg fresh m L', (L.worker.sinks s).handle = true → L.worker.destroying = false →
    (L.worker.clients c).pc = .save msg → FileWorker.step env L (.client c fresh, m) = some L' →
      L'.worker.enqueuedFor s = L.worker.enqueuedFor s ++ [msg]
  /-- and has run on all of them when the worker is destroyed. -/
  drained : L.worker.destroyed = true → (∀ c, (L.worker.clients c).pc.usesSink = false) →
    (L.worker.sinks s).logged = L.worker.enqueuedFor s

/-- Clients add file sinks, save messages and change files, and as long as each file is opened
once the messages of every sink are in its files. No operation finds its stream or its sink
gone. -/
theorem rotation_keeps_messages {env : Env} {disk : Disk} {L : FileWorker}
    (h : (fileWorker env disk).ReachableBy (FileWorker.Fresh env) L) :
    (∀ s f, L.files s = some f → Rotates env L s f) ∧
      ∀ a worker, step L.worker a.1 = some worker → L.Fresh env a →
        ∃ L', FileWorker.step env L a = some L' ∧ L'.worker = worker := by
  obtain ⟨hreach, hfilings⟩ := filings h
  refine ⟨fun s f hf => ?_, fun a worker hs hfresh => ?_⟩
  · obtain ⟨written, hfiling⟩ := hfilings.filing s f hf
    refine ⟨hfiling.onDisk fun s' f' hs hf' => hfilings.apart s s' f f' hs hf hf',
      logged_prefix_enqueuedFor hreach s, fun c msg fresh m L' hhandle hbefore hpc hstep => ?_,
      fun hdestroyed hquiet => drained_of_destroyed hreach hdestroyed hquiet s⟩
    obtain ⟨worker, hworker, hperform⟩ := Option.bind_eq_some_iff.mp hstep
    obtain ⟨L₁, -, rfl⟩ := Option.map_eq_some_iff.mp hperform
    exact enqueuedFor_save_handle hreach hhandle hbefore hpc hworker
  · obtain ⟨L', hL', hworker, -⟩ := hfilings.step (owned hreach) hs hfresh
    exact ⟨L', hL', hworker⟩

/-- One client destroys the worker, one adds a file sink and has it change files, one saves two
messages. -/
def rotatingCrew : ClientId → List (Op Config Request)
  | 0 => [.destroy]
  | 1 => [.addSink ⟨"log", "/tmp/", G3LOG_INFO, ""⟩ fun _ config => config,
      .call 0 fun config => (config, .changeLogFile "/var/log/" "" G3LOG_INFO)]
  | 2 => [.save greeting, .save greeting]
  | _ => []

def saveActions : List Action := [.client 2 0, .client 2 0, .worker, .worker, .worker]

def changeActions : List Action := [.client 1 0, .client 1 0, .client 1 0]

/-- `~LogWorker` waits for the sink, and the sink for its tasks. -/
def endActions : List Action :=
  [.client 0 0, .client 0 0, .worker, .worker, .sink 0, .sink 0, .sink 0, .sink 0, .sink 0,
    .sink 0, .sink 0, .sink 0, .sink 0, .worker, .worker, .client 0 0, .client 0 0, .worker,
    .worker, .worker, .client 0 0, .client 0 0]

/-- The change of file comes between the messages. -/
def rotatingRun : List (Action × Moment) :=
  [addRun, saveActions, changeActions, saveActions, endActions].flatten.map
    fun a => (a, ⟨0, 0, 0, true, true⟩)

theorem rotation_keeps_messages_twice :
    ∃ L, L.worker.destroyed = true ∧ (L.worker.sinks 0).logged.length = 2 ∧
      L.opened.length = 2 ∧ (∀ s f, L.files s = some f → Rotates FileSink.epoch L s f) ∧
      ∀ a worker, step L.worker a.1 = some worker → L.Fresh FileSink.epoch a →
        ∃ L', FileWorker.step FileSink.epoch L a = some L' ∧ L'.worker = worker := by
  let disk : Disk := FileSink.diskOf (fun _ => none) fun _ => none
  have hrun : ((fileWorker FileSink.epoch disk).runBy
      (fun L a => decide (L.Fresh FileSink.epoch a))
      ⟨init rotatingCrew true, fun _ => none, disk, []⟩ rotatingRun).any
      (fun L => L.worker.destroyed && decide ((L.worker.sinks 0).logged.length = 2) &&
        decide (L.opened.length = 2)) = true := by decide +kernel
  have hstart : (fileWorker FileSink.epoch disk).Start
      ⟨init rotatingCrew true, fun _ => none, disk, []⟩ := ⟨rotatingCrew, true, rfl⟩
  obtain ⟨L, hL, hstate⟩ := System.exists_reachableBy hstart hrun
  simp only [Bool.and_eq_true, decide_eq_true_eq] at hstate
  exact ⟨L, hstate.1.1, hstate.1.2, hstate.2,
    rotation_keeps_messages (hL.mono fun _ _ => of_decide_eq_true)⟩

end G3log
