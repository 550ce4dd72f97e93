import G3log.FileSink

/-!
# What a sink writes to its files

A call on a `FileSink` writes a few parts: headers, notices of its own and messages. As long
as no file is opened twice, every file holds just the parts that were written to it, one
after the other (`Recorded.runFrom`), so a question about the files of a run is one about a
list of parts.

## Main definitions

* `FileSink.AtEnd` -- the stream stands at the end of its file.
* `FileSink.Part`, `Op.writes` -- the parts a call writes, and where.
* `FileSink.Recorded` -- the files hold the parts.
-/

namespace G3log.FileSink

/-! ## A sink at the end of its file -/

/-- The stream stands at the end of its file, which holds `cs`. -/
structure AtEnd (σ : State) (cs : List Cell) : Prop where
  outptr : σ.sink._outptr = some ⟨σ.fileName, cs.length⟩
  file : σ.disk.files σ.fileName = some cs

/-- The sink has written, and nothing else has changed. -/
structure Wrote (σ σ' : State) (firstEntry : Bool) : Prop where
  sink : σ'.sink = { σ.sink with _outptr := σ'.sink._outptr, _firstEntry := firstEntry }
  other : ∀ path ≠ σ.fileName, σ'.disk.files path = σ.disk.files path

theorem AtEnd.insert {σ : State} {cs : List Cell} (h : AtEnd σ cs) (text : List Cell) :
    ∃ σ', σ.insert text = some σ' ∧ AtEnd σ' (cs ++ text) ∧
      Wrote σ σ' σ.sink._firstEntry := by
  refine ⟨_, insert_eq h.outptr text, ⟨?_, ?_⟩, rfl, fun path hpath => ?_⟩
  · simp [OFStream.write, State.fileName]
  · have hwrite : ((⟨σ.fileName, cs.length⟩ : OFStream).write text σ.disk).2.files σ.fileName =
        some (Overwrite.writeAt ⟨'\x00', none⟩ cs cs.length text) := files_write_self h.file text
    have happend : Overwrite.writeAt ⟨'\x00', none⟩ cs cs.length text = cs ++ text := by
      simpa using Overwrite.writeAt_append ⟨'\x00', none⟩ cs [] text
    rw [happend] at hwrite
    exact hwrite
  · exact files_write_of_ne hpath text σ.disk

theorem AtEnd.firstEntry {σ : State} {cs : List Cell} (h : AtEnd σ cs) (env : Env) (now : Int) :
    ∃ σ', σ.firstEntry env now = some σ' ∧
      AtEnd σ' (cs ++ if σ.sink._firstEntry then own (header env σ.sink._header now) else []) ∧
      Wrote σ σ' false := by
  by_cases hfirst : σ.sink._firstEntry = true
  · obtain ⟨σ', hσ', hend, hwrote⟩ := h.insert (own (header env σ.sink._header now))
    refine ⟨{ σ' with sink := { σ'.sink with _firstEntry := false } }, ?_, ?_, ?_⟩
    · simp [State.firstEntry, hfirst, State.addLogFileHeader, hσ']
    · rw [if_pos hfirst]
      exact ⟨hend.outptr, hend.file⟩
    · refine ⟨?_, hwrote.other⟩
      rw [hwrote.sink]
  · have hfirst : σ.sink._firstEntry = false := Bool.eq_false_of_not_eq_true hfirst
    refine ⟨σ, by simp [State.firstEntry, hfirst], by simpa [hfirst] using h, ?_, fun _ _ => rfl⟩
    rw [← hfirst]

/-- A call of `fileWrite` appends the header if it is the first, and the text of the
message if its level is high enough. -/
theorem AtEnd.fileWrite {σ : State} {cs : List Cell} (h : AtEnd σ cs) (env : Env) (now : Int)
    (i : ℕ) (message : LogMessage) :
    ∃ σ', σ.fileWrite env now i message = some σ' ∧
      AtEnd σ' ((cs ++ if σ.sink._firstEntry then own (header env σ.sink._header now) else []) ++
        if message.level_value < σ.sink.min_loglevel_.value then []
        else ofMessage i (message.toString env σ.sink._log_details_func).1) ∧
      Wrote σ σ' false := by
  obtain ⟨σ₁, hσ₁, hend₁, hwrote₁⟩ := h.firstEntry env now
  have hlevel : σ₁.sink.min_loglevel_ = σ.sink.min_loglevel_ := by rw [hwrote₁.sink]
  have hfunc : σ₁.sink._log_details_func = σ.sink._log_details_func := by rw [hwrote₁.sink]
  have hname : σ₁.fileName = σ.fileName := by rw [State.fileName, hwrote₁.sink]; rfl
  simp only [State.fileWrite, hσ₁, Option.bind_eq_bind, Option.bind_some, hlevel, hfunc]
  by_cases hmin : message.level_value < σ.sink.min_loglevel_.value
  · exact ⟨σ₁, if_pos hmin, by simpa [hmin] using hend₁, hwrote₁⟩
  · obtain ⟨σ₂, hσ₂, hend₂, hwrote₂⟩ :=
      hend₁.insert (ofMessage i (message.toString env σ.sink._log_details_func).1)
    refine ⟨σ₂, by rw [if_neg hmin, hσ₂], by rwa [if_neg hmin], ?_, fun path hpath => ?_⟩
    · rw [hwrote₂.sink, hwrote₁.sink]
    · rw [hwrote₂.other path (by rwa [hname]), hwrote₁.other path hpath]

/-! ## Parts -/

/-- A text that a sink writes: a header, a notice of its own, or the message of a call. -/
inductive Part
  | header (text : String)
  | notice (text : String)
  | message (i : ℕ) (text : String)
  deriving DecidableEq

def Part.cells : Part → List Cell
  | .header text => own text
  | .notice text => own text
  | .message i text => ofMessage i text

/-- The file a call changes to, if it opens one. -/
def Op.newLog (env : Env) (verified : String) : Op → Option String
  | .changeLogFile directory logger_id level _ nowName _ true =>
      some (directory ++ createLogFileName env verified level logger_id nowName)
  | _ => none

/-- The notice in the file in use about one that could not be opened. -/
def unableToChange (now_formatted prospect_log : String) : String :=
  "\n" ++ now_formatted ++ " Unable to change log file. Illegal filename or busy? " ++
    "Unsuccessful log name was: " ++ prospect_log

/-- The last notice in a file that the sink leaves. -/
def changingLog (now_formatted _log_file_with_path prospect_log : String) : String :=
  now_formatted ++ "\n\tChanging log file from : " ++ _log_file_with_path ++
    "\n\tto new location: " ++ prospect_log ++ "\n"

/-- The first notice in the file it goes to. -/
def newLogFile (now_formatted old_log : String) : String :=
  now_formatted ++ "\n\tNew log file. The previous log file was at: " ++ old_log ++ "\n"

/-- The parts that a call writes, each with its file. The `calls`-th message is written. -/
def Op.writes (env : Env) (calls : ℕ) (σ : State) : Op → List (String × Part)
  | .fileWrite message now =>
      (if σ.sink._firstEntry then
        [(σ.fileName, .header (G3log.header env σ.sink._header now))] else []) ++
      if message.level_value < σ.sink.min_loglevel_.value then []
      else [(σ.fileName, .message calls (message.toString env σ.sink._log_details_func).1)]
  | .fileName => []
  | .overrideLogDetails _ => []
  | .overrideLogHeader _ => []
  | .changeLogFile directory logger_id level now nowName nowHeader opens =>
      let now_formatted := env.localtime_formatted now (date_formatted ++ " " ++ time_formatted)
      let prospect := σ.prospect_log env directory logger_id level nowName
      if opens then
        [(σ.fileName, .header (G3log.header env σ.sink._header nowHeader)),
          (σ.fileName, .notice (changingLog now_formatted σ.fileName prospect)),
          (prospect, .notice (newLogFile now_formatted σ.fileName))]
      else [(σ.fileName, .notice (unableToChange now_formatted prospect))]

/-- The parts that a run writes. -/
def writesAlong (env : Env) : Run → List Op → List (String × Part)
  | _, [] => []
  | r, op :: ops =>
      op.writes env r.calls r.state ++
        match step env r op with
        | none => []
        | some r' => writesAlong env r' ops

/-- The parts that were written to a file. -/
def partsOf (path : String) (written : List (String × Part)) : List Part :=
  (written.filter (·.1 = path)).map Prod.snd

def bytesOf (path : String) (written : List (String × Part)) : List Cell :=
  (partsOf path written).flatMap Part.cells

theorem partsOf_append (path : String) (written rest : List (String × Part)) :
    partsOf path (written ++ rest) = partsOf path written ++ partsOf path rest := by
  simp [partsOf]

theorem bytesOf_append (path : String) (written rest : List (String × Part)) :
    bytesOf path (written ++ rest) = bytesOf path written ++ bytesOf path rest := by
  simp [bytesOf, partsOf_append]

theorem bytesOf_singleton (path : String) (part : Part) :
    bytesOf path [(path, part)] = part.cells := by
  simp [bytesOf, partsOf]

theorem bytesOf_singleton_of_ne {path path' : String} (h : path' ≠ path) (part : Part) :
    bytesOf path [(path', part)] = [] := by
  simp [bytesOf, partsOf, h]

theorem partsOf_eq_nil {path : String} {written : List (String × Part)}
    (h : ∀ w ∈ written, w.1 ≠ path) : partsOf path written = [] := by
  simpa [partsOf] using h

/-- One part after the other. -/
def State.put (σ : State) (parts : List Part) : Option State :=
  parts.foldlM (fun σ part => σ.insert part.cells) σ

/-- A call of `fileWrite` puts its parts, and then the first entry has been made. -/
theorem fileWrite_eq (env : Env) (now : Int) (i : ℕ) (message : LogMessage) (σ : State) :
    σ.fileWrite env now i message =
      (σ.put (((Op.fileWrite message now).writes env i σ).map Prod.snd)).map fun σ' =>
        { σ' with sink := { σ'.sink with _firstEntry := false } } := by
  obtain ⟨⟨func, path, verified, link, outptr, head, first, level⟩, disk⟩ := σ
  cases outptr with
  | none =>
      by_cases hmin : message.level_value < level.value
      · cases first <;> simp [State.fileWrite, State.firstEntry, State.addLogFileHeader,
          State.insert, State.put, Op.writes, hmin]
      · cases first <;> simp [State.fileWrite, State.firstEntry, State.addLogFileHeader,
          State.insert, State.put, Op.writes, hmin]
  | some out =>
      by_cases hmin : message.level_value < level.value
      · cases first <;> simp [State.fileWrite, State.firstEntry, State.addLogFileHeader,
          State.insert, State.put, Op.writes, hmin, Part.cells]
      · cases first <;> simp [State.fileWrite, State.firstEntry, State.addLogFileHeader,
          State.insert, State.put, Op.writes, hmin, Part.cells]

/-- They all go to the file in use. -/
theorem writes_fileWrite_eq (env : Env) (calls : ℕ) (σ : State) (message : LogMessage)
    (now : Int) :
    (((Op.fileWrite message now).writes env calls σ).map Prod.snd).map (Prod.mk σ.fileName) =
      (Op.fileWrite message now).writes env calls σ := by
  simp only [Op.writes]
  split <;> split <;> rfl

/-! ## The sink after a call -/

/-- The sink after a call, but for its stream. -/
def Op.sinkAfter (env : Env) (σ : State) : Op → FileSink
  | .fileWrite _ _ => { σ.sink with _firstEntry := false }
  | .fileName => σ.sink
  | .overrideLogDetails func => { σ.sink with _log_details_func := func }
  | .overrideLogHeader change => { σ.sink with _header := change }
  | .changeLogFile directory logger_id level _ nowName _ opens =>
      if opens then
        { σ.sink with
          _log_file_with_path := σ.prospect_log env directory logger_id level nowName }
      else σ.sink

section
variable {env : Env} {σ σ' : State}

theorem sink_insert {text : List Cell} (hσ' : σ.insert text = some σ') :
    σ'.sink = { σ.sink with _outptr := σ'.sink._outptr } := by
  simp only [State.insert, Option.map_eq_some_iff] at hσ'
  obtain ⟨out, -, rfl⟩ := hσ'
  rfl

theorem sink_put {parts : List Part} (hσ' : σ.put parts = some σ') :
    σ'.sink = { σ.sink with _outptr := σ'.sink._outptr } := by
  induction parts generalizing σ with
  | nil =>
      obtain rfl : σ = σ' := Option.some.inj hσ'
      rfl
  | cons part parts ih =>
      obtain ⟨σ₁, hσ₁, hrest⟩ := Option.bind_eq_some_iff.mp hσ'
      rw [ih hrest, sink_insert hσ₁]

theorem sink_fileWrite {now : Int} {i : ℕ} {message : LogMessage}
    (hσ' : σ.fileWrite env now i message = some σ') :
    σ'.sink = { σ.sink with _outptr := σ'.sink._outptr, _firstEntry := false } := by
  rw [fileWrite_eq] at hσ'
  obtain ⟨σ₁, hσ₁, rfl⟩ := Option.map_eq_some_iff.mp hσ'
  rw [sink_put hσ₁]

theorem sink_changeLogFile {directory logger_id name : String} {level : LEVELS}
    {now nowName nowHeader : Int} {opens : Bool}
    (hσ' : σ.changeLogFile env directory logger_id level now nowName nowHeader opens =
      some (name, σ')) :
    name = (if opens then σ.prospect_log env directory logger_id level nowName else "") ∧
      σ'.sink = { (Op.changeLogFile directory logger_id level now nowName nowHeader
        opens).sinkAfter env σ with _outptr := σ'.sink._outptr } := by
  cases opens with
  | false =>
      simp only [State.changeLogFile, createLogFile, openLogFile, Bool.false_eq_true, if_false,
        Option.bind_eq_bind, Option.bind_eq_some_iff, Option.some.injEq, Prod.mk.injEq] at hσ'
      obtain ⟨σ₁, hσ₁, hname, rfl⟩ := hσ'
      exact ⟨hname.symm, sink_insert hσ₁⟩
  | true =>
      simp only [State.changeLogFile, createLogFile, openLogFile, if_true, Option.bind_eq_bind,
        Option.bind_eq_some_iff, Option.some.injEq, Prod.mk.injEq] at hσ'
      obtain ⟨σ₁, hσ₁, σ₂, hσ₂, σ₃, hσ₃, hname, rfl⟩ := hσ'
      have hsink₁ := sink_insert hσ₁
      have hsink₂ := sink_insert hσ₂
      have hsink₃ := sink_insert hσ₃
      constructor
      · rw [← hname, hsink₃]
        rfl
      · rw [hsink₃, hsink₂, hsink₁]
        rfl

section
variable {directory logger_id prospect : String} {level : LEVELS} {now nowName : Int}
  (hprospect : σ.prospect_log env directory logger_id level nowName = prospect)

include hprospect

/-- A change that cannot open its file writes one notice. -/
theorem changeLogFile_failure_eq (nowHeader : Int)
    (h : σ.insert (own (unableToChange
      (env.localtime_formatted now (date_formatted ++ " " ++ time_formatted)) prospect)) =
        some σ') :
    σ.changeLogFile env directory logger_id level now nowName nowHeader false =
      some ("", σ') := by
  simp only [State.changeLogFile, createLogFile, openLogFile, Bool.false_eq_true, if_false,
    Option.bind_eq_bind, hprospect]
  exact congrArg (Option.bind · _) h

/-- One that opens it writes a header and a notice, goes over to the file, and writes another
notice there. -/
theorem changeLogFile_success_eq {nowHeader : Int} {σ₁ σ₂ : State}
    (h₁ : State.insert (own (header env σ.sink._header nowHeader)) { σ with disk :=
      { σ.disk with files := Function.update σ.disk.files prospect (some []) } } = some σ₁)
    (h₂ : σ₁.insert (own (changingLog
      (env.localtime_formatted now (date_formatted ++ " " ++ time_formatted)) σ.fileName
        prospect)) = some σ₂)
    (h₃ : State.insert (own (newLogFile
      (env.localtime_formatted now (date_formatted ++ " " ++ time_formatted)) σ.fileName))
        { σ₂ with sink := { σ₂.sink with
          _log_file_with_path := prospect, _outptr := some ⟨prospect, 0⟩ } } = some σ') :
    σ.changeLogFile env directory logger_id level now nowName nowHeader true =
      some (prospect, σ') := by
  have hpath₁ : σ₁.sink._log_file_with_path = σ.fileName := by
    rw [sink_insert h₁]
    rfl
  have hpath₂ : σ₂.sink._log_file_with_path = σ.fileName := by
    rw [sink_insert h₂]
    exact hpath₁
  have hpath : σ'.sink._log_file_with_path = prospect := by rw [sink_insert h₃]
  simp only [State.changeLogFile, createLogFile, openLogFile, if_true, Option.bind_eq_bind,
    hprospect, State.addLogFileHeader]
  refine (congrArg (Option.bind · _) h₁).trans ?_
  simp only [Option.bind_some, hpath₁]
  refine (congrArg (Option.bind · _) h₂).trans ?_
  simp only [Option.bind_some, hpath₂]
  refine (congrArg (Option.bind · _) h₃).trans ?_
  simp only [Option.bind_some, hpath]

end

theorem sink_step {r r' : Run} {op : Op} (hr' : step env r op = some r') :
    r'.state.sink = { op.sinkAfter env r.state with _outptr := r'.state.sink._outptr } := by
  cases op with
  | fileWrite message now =>
      simp only [step, Option.bind_eq_bind, Option.bind_eq_some_iff, Option.some.injEq] at hr'
      obtain ⟨σ, hσ, rfl⟩ := hr'
      exact sink_fileWrite hσ
  | fileName =>
      rw [← Option.some.inj hr']
      rfl
  | overrideLogDetails func =>
      rw [← Option.some.inj hr']
      rfl
  | overrideLogHeader change =>
      rw [← Option.some.inj hr']
      rfl
  | changeLogFile directory logger_id level now nowName nowHeader opens =>
      simp only [step, Option.bind_eq_bind, Option.bind_eq_some_iff, Option.some.injEq] at hr'
      obtain ⟨⟨name, σ⟩, hσ, rfl⟩ := hr'
      exact (sink_changeLogFile hσ).2

end

/-! ## The files hold the parts -/

/-- The files that were opened hold the parts written to them, and the sink stands at the
end of one of them. -/
structure Recorded (written : List (String × Part)) (opened : List String) (σ : State) :
    Prop where
  fileName : σ.fileName ∈ opened
  outptr : σ.sink._outptr = some ⟨σ.fileName, (bytesOf σ.fileName written).length⟩
  files : ∀ path ∈ opened, σ.disk.files path = some (bytesOf path written)
  written : ∀ w ∈ written, w.1 ∈ opened

section
variable {written : List (String × Part)} {opened : List String} {σ : State}

theorem Recorded.insert (h : Recorded written opened σ) (part : Part) :
    ∃ σ', σ.insert part.cells = some σ' ∧
      Recorded (written ++ [(σ.fileName, part)]) opened σ' := by
  have hend : AtEnd σ (bytesOf σ.fileName written) := ⟨h.outptr, h.files _ h.fileName⟩
  obtain ⟨σ', hσ', hend', hwrote⟩ := hend.insert part.cells
  have hname : σ'.fileName = σ.fileName := by
    rw [State.fileName, sink_insert hσ']
    rfl
  have hbytes : bytesOf σ.fileName (written ++ [(σ.fileName, part)]) =
      bytesOf σ.fileName written ++ part.cells := by
    rw [bytesOf_append, bytesOf_singleton]
  refine ⟨σ', hσ', ?_⟩
  constructor
  · rw [hname]
    exact h.fileName
  · rw [hend'.outptr, hname, hbytes]
  · intro path hpath
    by_cases hp : path = σ.fileName
    · have hfile := hend'.file
      rw [hname] at hfile
      rw [hp, hbytes, hfile]
    · rw [hwrote.other path hp, h.files path hpath, bytesOf_append,
        bytesOf_singleton_of_ne (Ne.symm hp), List.append_nil]
  · intro w hw
    rcases List.mem_append.mp hw with hw | hw
    · exact h.written w hw
    · rw [List.mem_singleton.mp hw]
      exact h.fileName

/-- The fields that the stream is not written through do not matter to the files. -/
theorem Recorded.congr (h : Recorded written opened σ) {sink : FileSink}
    (hname : sink._log_file_with_path = σ.sink._log_file_with_path)
    (hout : sink._outptr = σ.sink._outptr) : Recorded written opened { σ with sink := sink } := by
  have hfile : State.fileName { σ with sink := sink } = σ.fileName := hname
  constructor
  · rw [hfile]
    exact h.fileName
  · rw [hfile]
    exact hout.trans h.outptr
  · exact h.files
  · exact h.written

theorem Recorded.put (h : Recorded written opened σ) (parts : List Part) :
    ∃ σ', σ.put parts = some σ' ∧
      Recorded (written ++ parts.map (Prod.mk σ.fileName)) opened σ' := by
  induction parts generalizing σ written with
  | nil =>
      refine ⟨σ, rfl, ?_⟩
      rw [List.map_nil, List.append_nil]
      exact h
  | cons part parts ih =>
      obtain ⟨σ₁, hσ₁, hrec₁⟩ := h.insert part
      obtain ⟨σ', hσ', hrec⟩ := ih hrec₁
      have hname : σ₁.fileName = σ.fileName := by
        rw [State.fileName, sink_insert hσ₁]
        rfl
      refine ⟨σ', ?_, ?_⟩
      · rw [State.put, List.foldlM_cons, hσ₁]
        exact hσ'
      · rw [hname, List.append_assoc] at hrec
        exact hrec

theorem Recorded.fileWrite (h : Recorded written opened σ) (env : Env) (now : Int) (i : ℕ)
    (message : LogMessage) :
    ∃ σ', σ.fileWrite env now i message = some σ' ∧
      Recorded (written ++ (Op.fileWrite message now).writes env i σ) opened σ' := by
  obtain ⟨σ', hσ', hrec⟩ := h.put (((Op.fileWrite message now).writes env i σ).map Prod.snd)
  rw [writes_fileWrite_eq] at hrec
  refine ⟨{ σ' with sink := { σ'.sink with _firstEntry := false } }, ?_, ?_⟩
  · rw [fileWrite_eq, hσ', Option.map_some]
  · exact hrec.congr rfl rfl

/-- A file that opens is empty, and none of the parts is in it. -/
theorem Recorded.open (h : Recorded written opened σ) {path : String} (hpath : path ∉ opened) :
    Recorded written (opened ++ [path])
      { σ with disk :=
        { σ.disk with files := Function.update σ.disk.files path (some []) } } := by
  have hnone : bytesOf path written = [] := by
    rw [bytesOf, partsOf_eq_nil]
    · rfl
    · intro w hw heq
      exact hpath (heq ▸ h.written w hw)
  constructor
  · exact List.mem_append_left _ h.fileName
  · exact h.outptr
  · intro path' hmem
    by_cases hp : path' = path
    · rw [hp, hnone]
      exact Function.update_self ..
    · have hold : path' ∈ opened := by simpa [hp] using hmem
      exact (Function.update_of_ne hp ..).trans (h.files path' hold)
  · intro w hw
    exact List.mem_append_left _ (h.written w hw)

/-- The sink goes over to a file that was just opened. -/
theorem Recorded.change (h : Recorded written opened σ) {path : String} (hpath : path ∈ opened)
    (hnone : ∀ w ∈ written, w.1 ≠ path) :
    Recorded written opened { σ with sink :=
      { σ.sink with _log_file_with_path := path, _outptr := some ⟨path, 0⟩ } } := by
  constructor
  · exact hpath
  · have hempty : bytesOf path written = [] := by
      rw [bytesOf, partsOf_eq_nil hnone]
      rfl
    simp [State.fileName, hempty]
  · exact h.files
  · exact h.written

/-- A change that cannot open its file leaves a notice. -/
theorem Recorded.changeLogFile_failure (h : Recorded written opened σ) (env : Env)
    (directory logger_id : String) (level : LEVELS) (now nowName nowHeader : Int) (calls : ℕ) :
    ∃ σ', σ.changeLogFile env directory logger_id level now nowName nowHeader false =
        some ("", σ') ∧
      Recorded (written ++ (Op.changeLogFile directory logger_id level now nowName nowHeader
        false).writes env calls σ) opened σ' := by
  obtain ⟨σ', hσ', hrec⟩ := h.insert (.notice (unableToChange
    (env.localtime_formatted now (date_formatted ++ " " ++ time_formatted))
    (σ.prospect_log env directory logger_id level nowName)))
  exact ⟨σ', changeLogFile_failure_eq rfl nowHeader hσ', hrec⟩

/-- One that opens it leaves a header and a notice in the old file and a notice in the new. -/
theorem Recorded.changeLogFile_success (h : Recorded written opened σ) (env : Env)
    {directory logger_id : String} {level : LEVELS} (now : Int) {nowName : Int} (nowHeader : Int)
    (calls : ℕ) {prospect : String}
    (hprospect : σ.prospect_log env directory logger_id level nowName = prospect)
    (hfresh : prospect ∉ opened) :
    ∃ σ', σ.changeLogFile env directory logger_id level now nowName nowHeader true =
        some (prospect, σ') ∧
      Recorded (written ++ (Op.changeLogFile directory logger_id level now nowName nowHeader
        true).writes env calls σ) (opened ++ [prospect]) σ' := by
  set now_formatted := env.localtime_formatted now (date_formatted ++ " " ++ time_formatted)
  have hne : σ.fileName ≠ prospect := by
    intro heq
    exact hfresh (heq ▸ h.fileName)
  obtain ⟨σ₁, hσ₁, hrec₁⟩ :=
    (h.open hfresh).insert (.header (G3log.header env σ.sink._header nowHeader))
  have hname₁ : σ₁.fileName = σ.fileName := by
    rw [State.fileName, sink_insert hσ₁]
    rfl
  obtain ⟨σ₂, hσ₂, hrec₂⟩ :=
    hrec₁.insert (.notice (changingLog now_formatted σ.fileName prospect))
  have hname₂ : σ₂.fileName = σ.fileName := by
    rw [State.fileName, sink_insert hσ₂]
    exact hname₁
  have hnone : ∀ w ∈ written ++ [(σ.fileName, .header (G3log.header env σ.sink._header nowHeader)),
      (σ.fileName, .notice (changingLog now_formatted σ.fileName prospect))], w.1 ≠ prospect := by
    intro w hw heq
    simp only [List.mem_append, List.mem_cons, List.not_mem_nil, or_false] at hw
    rcases hw with hw | rfl | rfl
    · exact hfresh (heq ▸ h.written w hw)
    · exact hne heq
    · exact hne heq
  rw [hname₁, List.append_assoc] at hrec₂
  obtain ⟨σ₃, hσ₃, hrec₃⟩ := (hrec₂.change (by simp) hnone).insert
    (.notice (newLogFile now_formatted σ.fileName))
  refine ⟨σ₃, changeLogFile_success_eq hprospect hσ₁ hσ₂ hσ₃, ?_⟩
  rw [List.append_assoc] at hrec₃
  simp only [Op.writes, if_true, hprospect]
  exact hrec₃

end

/-- A call writes its parts, if the file it opens was not opened before. -/
theorem Recorded.step {written : List (String × Part)} {opened : List String} {r : Run}
    (h : Recorded written opened r.state) (env : Env) (op : Op)
    (hfresh : ∀ path, op.newLog env r.state.sink._log_prefix_backup = some path →
      path ∉ opened) :
    ∃ r', FileSink.step env r op = some r' ∧
      Recorded (written ++ op.writes env r.calls r.state)
        (opened ++ (op.newLog env r.state.sink._log_prefix_backup).toList) r'.state := by
  obtain ⟨r', hr', -⟩ := exists_step (by simp [h.outptr] : r.state.sink._outptr.isSome) env op
  refine ⟨r', hr', ?_⟩
  cases op with
  | fileWrite message now =>
      obtain ⟨σ, hσ, hrec⟩ := h.fileWrite env now r.calls message
      simp only [FileSink.step, hσ, Option.bind_eq_bind, Option.bind_some] at hr'
      rw [← Option.some.inj hr']
      simpa [Op.newLog] using hrec
  | fileName =>
      rw [← Option.some.inj hr']
      simpa [Op.newLog, Op.writes] using h
  | overrideLogDetails func =>
      have hrec : Recorded written opened (r.state.overrideLogDetails func) := h.congr rfl rfl
      rw [← Option.some.inj hr']
      simpa [Op.newLog, Op.writes] using hrec
  | overrideLogHeader change =>
      have hrec : Recorded written opened (r.state.overrideLogHeader change) := h.congr rfl rfl
      rw [← Option.some.inj hr']
      simpa [Op.newLog, Op.writes] using hrec
  | changeLogFile directory logger_id level now nowName nowHeader opens =>
      cases opens with
      | false =>
          obtain ⟨σ, hσ, hrec⟩ := h.changeLogFile_failure env directory logger_id level now
            nowName nowHeader r.calls
          simp only [FileSink.step, hσ, Option.bind_eq_bind, Option.bind_some] at hr'
          rw [← Option.some.inj hr']
          simpa [Op.newLog] using hrec
      | true =>
          obtain ⟨σ, hσ, hrec⟩ := h.changeLogFile_success env now nowHeader r.calls rfl
            (hfresh _ rfl)
          simp only [FileSink.step, hσ, Option.bind_eq_bind, Option.bind_some] at hr'
          rw [← Option.some.inj hr']
          exact hrec

theorem verified_step {env : Env} {r r' : Run} {op : Op} (hr' : step env r op = some r') :
    r'.state.sink._log_prefix_backup = r.state.sink._log_prefix_backup := by
  rw [sink_step hr']
  cases op with
  | changeLogFile directory logger_id level now nowName nowHeader opens => cases opens <;> rfl
  | fileWrite | fileName | overrideLogDetails | overrideLogHeader => rfl

theorem writesAlong_cons {env : Env} {r r' : Run} {op : Op} (hr' : step env r op = some r')
    (ops : List Op) :
    writesAlong env r (op :: ops) = op.writes env r.calls r.state ++ writesAlong env r' ops := by
  simp only [writesAlong, hr']

/-- The first call of a run in which no file is opened twice. -/
theorem Recorded.cons {written : List (String × Part)} {opened : List String} {r : Run}
    (h : Recorded written opened r.state) (env : Env) {op : Op} {ops : List Op}
    (hnodup : (opened ++
      (op :: ops).filterMap (Op.newLog env r.state.sink._log_prefix_backup)).Nodup) :
    ∃ r' opened', FileSink.step env r op = some r' ∧
      Recorded (written ++ op.writes env r.calls r.state) opened' r'.state ∧
      (∀ path, op.newLog env r.state.sink._log_prefix_backup = some path → path ∉ opened) ∧
      opened' ++ ops.filterMap (Op.newLog env r'.state.sink._log_prefix_backup) =
        opened ++ (op :: ops).filterMap (Op.newLog env r.state.sink._log_prefix_backup) := by
  have happend : opened ++ (op :: ops).filterMap (Op.newLog env
      r.state.sink._log_prefix_backup) =
      (opened ++ (op.newLog env r.state.sink._log_prefix_backup).toList) ++
        ops.filterMap (Op.newLog env r.state.sink._log_prefix_backup) := by
    rw [List.append_assoc, List.filterMap_cons]
    split <;> simp [*]
  rw [happend] at hnodup ⊢
  have hfresh : ∀ path, op.newLog env r.state.sink._log_prefix_backup = some path →
      path ∉ opened := by
    intro path hpath
    rw [hpath] at hnodup
    have hdisjoint := (List.nodup_append.mp (List.nodup_append.mp hnodup).1).2.2
    intro hmem
    exact hdisjoint path hmem path (by simp) rfl
  obtain ⟨r', hr', hrec⟩ := h.step env op hfresh
  refine ⟨r', _, hr', hrec, hfresh, ?_⟩
  rw [verified_step hr']

/-- A run in which no file is opened twice writes its parts. -/
theorem Recorded.runFrom {written : List (String × Part)} {opened : List String} {r : Run}
    (h : Recorded written opened r.state) (env : Env) (ops : List Op)
    (hnodup : (opened ++
      ops.filterMap (Op.newLog env r.state.sink._log_prefix_backup)).Nodup) :
    ∃ r', FileSink.runFrom env r ops = some r' ∧
      Recorded (written ++ writesAlong env r ops)
        (opened ++ ops.filterMap (Op.newLog env r.state.sink._log_prefix_backup)) r'.state := by
  induction ops generalizing r written opened with
  | nil => exact ⟨r, rfl, by simpa [writesAlong] using h⟩
  | cons op ops ih =>
      obtain ⟨r₁, opened₁, hr₁, hrec₁, -, hopened⟩ := h.cons env hnodup
      obtain ⟨r', hr', hrec'⟩ := ih hrec₁ (hopened ▸ hnodup)
      refine ⟨r', ?_, ?_⟩
      · simpa [FileSink.runFrom, hr₁] using hr'
      · rw [writesAlong_cons hr₁, ← List.append_assoc, ← hopened]
        exact hrec'

/-- What the constructor puts into the fields of a sink. -/
theorem create_fields {env : Env} {logPrefix log_directory logger_id : String} {level : LEVELS}
    {now : Int} {opens opensFallback : Bool} {disk : Disk} {σ : State}
    (hσ : create env logPrefix log_directory level logger_id now opens opensFallback disk =
      some σ) :
    σ.sink._log_details_func = .DefaultLogDetailsToString ∧ σ.sink._header = defaultHeader ∧
      σ.sink._firstEntry = true ∧ σ.sink.min_loglevel_ = level ∧
      σ.sink._log_prefix_backup = prefixSanityFix logPrefix := by
  unfold create at hσ
  simp only [createLogFile, openLogFile] at hσ
  split at hσ
  · simp at hσ
  · obtain rfl := Option.some.inj hσ
    refine ⟨rfl, rfl, rfl, rfl, ?_⟩
    simp only

/-- A constructed sink stands at the beginning of its file. -/
theorem recorded_start {env : Env} {logPrefix log_directory logger_id : String} {level : LEVELS}
    {now : Int} {opens opensFallback : Bool} {disk : Disk} {σ : State}
    (hσ : create env logPrefix log_directory level logger_id now opens opensFallback disk =
      some σ) (hopen : σ.sink._outptr.isSome) : Recorded [] [σ.fileName] σ := by
  obtain ⟨houtptr, hfiles⟩ := create_files hσ hopen
  constructor
  · exact List.mem_singleton_self _
  · rw [houtptr]
    rfl
  · intro path hpath
    rw [List.mem_singleton.mp hpath, hfiles]
    exact Function.update_self ..
  · intro w hw
    cases hw

end G3log.FileSink
