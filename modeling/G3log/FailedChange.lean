import G3log.FileParts

/-!
# A change of file that fails

`changeLogFile` opens the new file before it touches anything. When that fails it leaves a
notice in the file in use and returns the empty string. `failed_change_harmless` compares a
run with such a call and the run without it: every other call returns and writes the same,
and the file in use gets the notice and no other difference. That last part is about a file
that the run opens once: a later change within the second may empty it again and write over
it from another place (`reopened_file_loses_notice`).

## Main definitions

* `FileSink.answersAlong` -- what the calls of a run return.
* `FileSink.Alike` -- two sinks that differ in how far they have come in one file.
* `FileSink.Holds` -- the messages in the files, also of runs that open a file twice.
* `FileSink.Ends` -- one file, and the stream at its end when it is in use.
* `FileSink.Harmless` -- two runs that differ by one notice.
-/

namespace G3log.FileSink

/-- What a call returns, if it returns a string. -/
def Op.answer (env : Env) (σ : State) : Op → Option String
  | .fileName => some σ.fileName
  | .changeLogFile directory logger_id level now nowName nowHeader opens =>
      (σ.changeLogFile env directory logger_id level now nowName nowHeader opens).map Prod.fst
  | _ => none

/-- What the calls of a run return. -/
def answersAlong (env : Env) : Run → List Op → List (Option String)
  | _, [] => []
  | r, op :: ops =>
      op.answer env r.state ::
        match step env r op with
        | none => []
        | some r' => answersAlong env r' ops

theorem answersAlong_cons {env : Env} {r r' : Run} {op : Op} (hr' : step env r op = some r')
    (ops : List Op) :
    answersAlong env r (op :: ops) = op.answer env r.state :: answersAlong env r' ops := by
  simp only [answersAlong, hr']

/-- Two sinks with open streams that differ in nothing but how far they have come in one
file, and what it holds. -/
structure Alike (path : String) (σ σ' : State) : Prop where
  sink : σ'.sink = { σ.sink with _outptr := σ'.sink._outptr }
  outptr : ∃ out out', σ.sink._outptr = some out ∧ σ'.sink._outptr = some out' ∧
    out'.path = out.path ∧ (out.path ≠ path → out' = out)
  links : σ'.disk.links = σ.disk.links
  files : ∀ path' ≠ path, σ'.disk.files path' = σ.disk.files path'

section
variable {path : String} {σ σ' : State} {env : Env}

theorem Alike.fileName (h : Alike path σ σ') : σ'.fileName = σ.fileName := by
  rw [State.fileName, h.sink]
  rfl

theorem Alike.insert (h : Alike path σ σ') (text : List Cell) :
    ∃ σ₁ σ₁', σ.insert text = some σ₁ ∧ σ'.insert text = some σ₁' ∧ Alike path σ₁ σ₁' := by
  obtain ⟨out, out', hout, hout', hpath, hoffset⟩ := h.outptr
  refine ⟨_, _, insert_eq hout text, insert_eq hout' text, ?_⟩
  constructor
  · rw [h.sink]
  · refine ⟨_, _, rfl, rfl, hpath, ?_⟩
    intro hne
    rw [hoffset hne]
    rfl
  · exact h.links
  · intro path' hne
    by_cases hfile : path' = out.path
    · have hout_ne : out.path ≠ path := by rwa [← hfile]
      simp only [hoffset hout_ne, OFStream.write, hfile, Function.update_self]
      rw [h.files _ hout_ne]
    · rw [files_write_of_ne (by rwa [hpath]), files_write_of_ne hfile, h.files path' hne]

/-- The stream is what it was; the fields next to it may be set alike in both. -/
theorem Alike.congr (h : Alike path σ σ') {sink sink' : FileSink}
    (hsink : sink' = { sink with _outptr := sink'._outptr })
    (hout : sink._outptr = σ.sink._outptr) (hout' : sink'._outptr = σ'.sink._outptr) :
    Alike path { σ with sink := sink } { σ' with sink := sink' } := by
  constructor
  · exact hsink
  · rw [hout, hout']
    exact h.outptr
  · exact h.links
  · exact h.files

theorem Alike.put (h : Alike path σ σ') (parts : List Part) :
    ∃ σ₁ σ₁', σ.put parts = some σ₁ ∧ σ'.put parts = some σ₁' ∧ Alike path σ₁ σ₁' := by
  induction parts generalizing σ σ' with
  | nil => exact ⟨σ, σ', rfl, rfl, h⟩
  | cons part parts ih =>
      obtain ⟨σ₁, σ₁', hσ₁, hσ₁', h₁⟩ := h.insert part.cells
      simp only [State.put, List.foldlM_cons, hσ₁, hσ₁', Option.bind_eq_bind, Option.bind_some]
      exact ih h₁

variable (env) in
theorem Alike.prospect_log (h : Alike path σ σ') (directory logger_id : String) (level : LEVELS)
    (now : Int) :
    σ'.prospect_log env directory logger_id level now =
      σ.prospect_log env directory logger_id level now := by
  rw [State.prospect_log, h.sink]
  rfl

theorem Alike.newLog (h : Alike path σ σ') (op : Op) :
    op.newLog env σ'.sink._log_prefix_backup = op.newLog env σ.sink._log_prefix_backup := by
  rw [h.sink]

/-- What a call writes does not depend on the stream. -/
theorem Alike.writes (h : Alike path σ σ') (calls : ℕ) (op : Op) :
    op.writes env calls σ' = op.writes env calls σ := by
  have hname := h.fileName
  have hprospect (directory logger_id : String) (level : LEVELS) (now : Int) :=
    h.prospect_log env directory logger_id level now
  have hfirst : σ'.sink._firstEntry = σ.sink._firstEntry := by rw [h.sink]
  have hheader : σ'.sink._header = σ.sink._header := by rw [h.sink]
  have hlevel : σ'.sink.min_loglevel_ = σ.sink.min_loglevel_ := by rw [h.sink]
  have hfunc : σ'.sink._log_details_func = σ.sink._log_details_func := by rw [h.sink]
  cases op with
  | fileWrite message now =>
      simp only [Op.writes, hname, hfirst, hheader, hlevel, hfunc]
  | fileName => rfl
  | overrideLogDetails func => rfl
  | overrideLogHeader change => rfl
  | changeLogFile directory logger_id level now nowName nowHeader opens =>
      simp only [Op.writes, hname, hheader, hprospect]

theorem Alike.fileWrite (h : Alike path σ σ') (env : Env) (now : Int) (i : ℕ)
    (message : LogMessage) :
    ∃ σ₁ σ₁', σ.fileWrite env now i message = some σ₁ ∧
      σ'.fileWrite env now i message = some σ₁' ∧ Alike path σ₁ σ₁' := by
  obtain ⟨σ₁, σ₁', hσ₁, hσ₁', h₁⟩ :=
    h.put (((Op.fileWrite message now).writes env i σ).map Prod.snd)
  rw [fileWrite_eq, fileWrite_eq, h.writes, hσ₁, hσ₁']
  refine ⟨_, _, rfl, rfl, ?_⟩
  apply h₁.congr
  · rw [h₁.sink]
  · rfl
  · rfl

/-- A file that opens in both is empty in both. -/
theorem Alike.open (h : Alike path σ σ') (opened : String) :
    Alike path
      { σ with disk :=
        { σ.disk with files := Function.update σ.disk.files opened (some []) } }
      { σ' with disk :=
        { σ'.disk with files := Function.update σ'.disk.files opened (some []) } } := by
  constructor
  · exact h.sink
  · exact h.outptr
  · exact h.links
  · intro path' hne
    by_cases hp : path' = opened
    · simp only [hp, Function.update_self]
    · simp only [Function.update_of_ne hp]
      exact h.files path' hne

/-- Both sinks go over to a file. -/
theorem Alike.change (h : Alike path σ σ') (prospect : String) :
    Alike path
      { σ with sink :=
        { σ.sink with _log_file_with_path := prospect, _outptr := some ⟨prospect, 0⟩ } }
      { σ' with sink :=
        { σ'.sink with _log_file_with_path := prospect, _outptr := some ⟨prospect, 0⟩ } } := by
  constructor
  · rw [h.sink]
  · refine ⟨⟨prospect, 0⟩, ⟨prospect, 0⟩, rfl, rfl, rfl, ?_⟩
    intro _
    rfl
  · exact h.links
  · exact h.files

theorem Alike.changeLogFile (h : Alike path σ σ') (env : Env) (directory logger_id : String)
    (level : LEVELS) (now nowName nowHeader : Int) (opens : Bool) :
    ∃ name σ₁ σ₁',
      σ.changeLogFile env directory logger_id level now nowName nowHeader opens =
        some (name, σ₁) ∧
      σ'.changeLogFile env directory logger_id level now nowName nowHeader opens =
        some (name, σ₁') ∧ Alike path σ₁ σ₁' := by
  set now_formatted := env.localtime_formatted now (date_formatted ++ " " ++ time_formatted)
    with hnow
  set prospect := σ.prospect_log env directory logger_id level nowName with hprospect
  have hprospect' := h.prospect_log env directory logger_id level nowName
  rw [← hprospect] at hprospect'
  cases opens with
  | false =>
      obtain ⟨σ₁, σ₁', hσ₁, hσ₁', h₁⟩ := h.insert (own (unableToChange now_formatted prospect))
      exact ⟨"", σ₁, σ₁', changeLogFile_failure_eq rfl nowHeader hσ₁,
        changeLogFile_failure_eq hprospect' nowHeader hσ₁', h₁⟩
  | true =>
      have hheader : σ'.sink._header = σ.sink._header := by rw [h.sink]
      have hname : σ'.fileName = σ.fileName := h.fileName
      obtain ⟨σ₁, σ₁', hσ₁, hσ₁', h₁⟩ :=
        (h.open prospect).insert (own (header env σ.sink._header nowHeader))
      obtain ⟨σ₂, σ₂', hσ₂, hσ₂', h₂⟩ :=
        h₁.insert (own (changingLog now_formatted σ.fileName prospect))
      obtain ⟨σ₃, σ₃', hσ₃, hσ₃', h₃⟩ :=
        (h₂.change prospect).insert (own (newLogFile now_formatted σ.fileName))
      refine ⟨prospect, σ₃, σ₃', changeLogFile_success_eq rfl hσ₁ hσ₂ hσ₃, ?_, h₃⟩
      rw [← hheader] at hσ₁'
      rw [← hname] at hσ₂' hσ₃'
      exact changeLogFile_success_eq hprospect' hσ₁' hσ₂' hσ₃'

/-- Nor does what it returns. -/
theorem Alike.answer (h : Alike path σ σ') (op : Op) : op.answer env σ' = op.answer env σ := by
  cases op with
  | fileWrite message now => rfl
  | fileName => exact congrArg some h.fileName
  | overrideLogDetails func => rfl
  | overrideLogHeader change => rfl
  | changeLogFile directory logger_id level now nowName nowHeader opens =>
      obtain ⟨name, σ₁, σ₁', hσ₁, hσ₁', -⟩ :=
        h.changeLogFile env directory logger_id level now nowName nowHeader opens
      simp only [Op.answer, hσ₁, hσ₁', Option.map_some]

end

/-! ## Two runs -/

/-- Two runs that have written the same but in one file. -/
structure AlikeRun (path : String) (r r' : Run) : Prop where
  state : Alike path r.state r'.state
  calls : r'.calls = r.calls
  accepted : r'.accepted = r.accepted

section
variable {path : String} {r r' : Run}

theorem AlikeRun.step (h : AlikeRun path r r') (env : Env) (op : Op) :
    ∃ r₁ r₁', FileSink.step env r op = some r₁ ∧ FileSink.step env r' op = some r₁' ∧
      AlikeRun path r₁ r₁' := by
  have hlevel : r'.state.sink.min_loglevel_ = r.state.sink.min_loglevel_ := by
    rw [h.state.sink]
  have hfunc : r'.state.sink._log_details_func = r.state.sink._log_details_func := by
    rw [h.state.sink]
  cases op with
  | fileWrite message now =>
      obtain ⟨σ, σ', hσ, hσ', halike⟩ := h.state.fileWrite env now r.calls message
      simp only [FileSink.step, h.calls, hσ, hσ', Option.bind_eq_bind, Option.bind_some]
      refine ⟨_, _, rfl, rfl, ?_⟩
      constructor
      · exact halike
      · rfl
      · simp only [hlevel, hfunc, h.accepted]
  | fileName => exact ⟨r, r', rfl, rfl, h⟩
  | overrideLogDetails func =>
      refine ⟨_, _, rfl, rfl, ?_⟩
      constructor
      · apply h.state.congr
        · rw [h.state.sink]
        · rfl
        · rfl
      · exact h.calls
      · exact h.accepted
  | overrideLogHeader change =>
      refine ⟨_, _, rfl, rfl, ?_⟩
      constructor
      · apply h.state.congr
        · rw [h.state.sink]
        · rfl
        · rfl
      · exact h.calls
      · exact h.accepted
  | changeLogFile directory logger_id level now nowName nowHeader opens =>
      obtain ⟨name, σ, σ', hσ, hσ', halike⟩ :=
        h.state.changeLogFile env directory logger_id level now nowName nowHeader opens
      simp only [FileSink.step, hσ, hσ', Option.bind_eq_bind, Option.bind_some]
      refine ⟨_, _, rfl, rfl, ?_⟩
      constructor
      · exact halike
      · exact h.calls
      · exact h.accepted

/-- They go on alike, return the same and write the same. -/
theorem AlikeRun.runFrom (h : AlikeRun path r r') (env : Env) (ops : List Op) :
    ∃ r₁ r₁', FileSink.runFrom env r ops = some r₁ ∧ FileSink.runFrom env r' ops = some r₁' ∧
      AlikeRun path r₁ r₁' ∧ answersAlong env r' ops = answersAlong env r ops ∧
      writesAlong env r' ops = writesAlong env r ops := by
  induction ops generalizing r r' with
  | nil => exact ⟨r, r', rfl, rfl, h, rfl, rfl⟩
  | cons op ops ih =>
      obtain ⟨r₁, r₁', hr₁, hr₁', halike⟩ := h.step env op
      obtain ⟨r₂, r₂', hr₂, hr₂', halike₂, hanswers, hwrites⟩ := ih halike
      refine ⟨r₂, r₂', ?_, ?_, halike₂, ?_, ?_⟩
      · simpa [FileSink.runFrom, hr₁] using hr₂
      · simpa [FileSink.runFrom, hr₁'] using hr₂'
      · rw [answersAlong_cons hr₁, answersAlong_cons hr₁', h.state.answer, hanswers]
      · rw [writesAlong_cons hr₁, writesAlong_cons hr₁', h.calls, h.state.writes, hwrites]

end

/-! ## The messages in the files -/

/-- The bytes that came from messages. -/
def messageCells (cs : List Cell) : List Cell := cs.filter (·.origin.isSome)

/-- The messages in a file after a call: none of the old ones if the call opens the file, and
then those that it writes. -/
def Op.held (env : Env) (calls : ℕ) (σ : State) (op : Op) (held : String → List Cell)
    (path : String) : List Cell :=
  (if op.newLog env σ.sink._log_prefix_backup = some path then [] else held path) ++
    messageCells (bytesOf path (op.writes env calls σ))

@[simp] theorem messageCells_nil : messageCells [] = [] := rfl

@[simp] theorem messageCells_append (cs ds : List Cell) :
    messageCells (cs ++ ds) = messageCells cs ++ messageCells ds := by
  simp [messageCells]

theorem messageCells_clean {cs : List Cell} (h : Clean cs) : messageCells cs = [] := by
  rw [messageCells, List.filter_eq_nil_iff]
  intro c hc
  simp [h c hc]

@[simp] theorem messageCells_own (text : String) : messageCells (own text) = [] :=
  messageCells_clean (clean_own text)

/-- The files hold these messages, and the stream stands where those of its file end. -/
def Holds (held : String → List Cell) (σ : State) : Prop :=
  ∃ out view, Ready σ out view ∧ out.path = σ.fileName ∧
    ∀ path, messageCells (view path) = held path

section
variable {held : String → List Cell} {σ : State}

/-- The fields that the stream is not written through do not matter to the messages. -/
theorem Holds.congr (h : Holds held σ) {sink : FileSink}
    (hname : sink._log_file_with_path = σ.sink._log_file_with_path)
    (hout : sink._outptr = σ.sink._outptr) : Holds held { σ with sink := sink } := by
  obtain ⟨out, view, hready, hpath, hheld⟩ := h
  refine ⟨out, view, ?_, hpath.trans hname.symm, hheld⟩
  exact ⟨hready.shows, hout.trans hready.outptr, hready.isOpen, hready.offset⟩

theorem Holds.insert (h : Holds held σ) (part : Part) :
    ∃ σ', σ.insert part.cells = some σ' ∧
      Holds (fun path => held path ++ messageCells (bytesOf path [(σ.fileName, part)])) σ' := by
  obtain ⟨out, view, hready, hpath, hheld⟩ := h
  refine ⟨_, insert_eq hready.outptr part.cells, _, _, hready.write part.cells, hpath, ?_⟩
  intro path
  dsimp only
  by_cases hp : path = out.path
  · rw [hp, Function.update_self, messageCells_append, hheld, hpath, bytesOf_singleton]
  · have hne : σ.fileName ≠ path := by
      rw [← hpath]
      exact Ne.symm hp
    rw [Function.update_of_ne hp, hheld, bytesOf_singleton_of_ne hne, messageCells_nil,
      List.append_nil]

theorem Holds.put (h : Holds held σ) (parts : List Part) :
    ∃ σ', σ.put parts = some σ' ∧
      Holds (fun path => held path ++
        messageCells (bytesOf path (parts.map (Prod.mk σ.fileName)))) σ' := by
  induction parts generalizing σ held with
  | nil =>
      refine ⟨σ, rfl, ?_⟩
      simpa [bytesOf, partsOf] using h
  | cons part parts ih =>
      obtain ⟨σ₁, hσ₁, h₁⟩ := h.insert part
      obtain ⟨σ', hσ', h'⟩ := ih h₁
      have hname : σ₁.fileName = σ.fileName := by
        rw [State.fileName, sink_insert hσ₁]
        rfl
      refine ⟨σ', ?_, ?_⟩
      · rw [State.put, List.foldlM_cons, hσ₁]
        exact hσ'
      · simp only [hname, List.append_assoc, ← messageCells_append, ← bytesOf_append] at h'
        exact h'

theorem messageCells_annotated {view view' : String → List Cell} (h : Annotated view view')
    (path : String) : messageCells (view' path) = messageCells (view path) := by
  induction h with
  | refl => rfl
  | own _ path' text ih =>
      by_cases hp : path = path'
      · rw [← ih, hp, Function.update_self, messageCells_append, messageCells_own,
          List.append_nil]
      · rw [Function.update_of_ne hp, ih]

end

theorem messageCells_writes_changeLogFile (env : Env) (calls : ℕ) (σ : State)
    (directory logger_id : String) (level : LEVELS) (now nowName nowHeader : Int) (opens : Bool)
    (path : String) :
    messageCells (bytesOf path ((Op.changeLogFile directory logger_id level now nowName nowHeader
      opens).writes env calls σ)) = [] := by
  apply messageCells_clean
  intro c hc
  obtain ⟨part, hpart, hc⟩ := List.mem_flatMap.mp hc
  cases opens with
  | false =>
      simp only [partsOf, Op.writes, Bool.false_eq_true, if_false, List.mem_map, List.mem_filter,
        List.mem_singleton] at hpart
      obtain ⟨w, ⟨rfl, -⟩, rfl⟩ := hpart
      exact clean_own _ c hc
  | true =>
      simp only [partsOf, Op.writes, if_true, List.mem_map, List.mem_filter, List.mem_cons,
        List.not_mem_nil, or_false] at hpart
      obtain ⟨w, ⟨rfl | rfl | rfl, -⟩, rfl⟩ := hpart
      · exact clean_own _ c hc
      · exact clean_own _ c hc
      · exact clean_own _ c hc

theorem held_of_quiet {env : Env} {calls : ℕ} {σ : State} {op : Op}
    (hnew : op.newLog env σ.sink._log_prefix_backup = none) (hwrites : op.writes env calls σ = [])
    (held : String → List Cell) : op.held env calls σ held = held := by
  ext path : 1
  rw [Op.held, hnew, hwrites]
  simp [bytesOf, partsOf]

theorem held_changeLogFile (env : Env) (calls : ℕ) (σ : State) (directory logger_id : String)
    (level : LEVELS) (now nowName nowHeader : Int) (opens : Bool)
    (held : String → List Cell) :
    (Op.changeLogFile directory logger_id level now nowName nowHeader opens).held env calls σ held =
      fun path => if (Op.changeLogFile directory logger_id level now nowName nowHeader
        opens).newLog env σ.sink._log_prefix_backup = some path then [] else held path := by
  ext path : 1
  rw [Op.held, messageCells_writes_changeLogFile, List.append_nil]

/-- A call empties the file it opens and adds its messages, whatever the files hold. -/
theorem Holds.step {held : String → List Cell} {r r' : Run} (h : Holds held r.state) {env : Env}
    {op : Op} (hr' : FileSink.step env r op = some r') :
    Holds (op.held env r.calls r.state held) r'.state := by
  cases op with
  | fileWrite message now =>
      obtain ⟨σ, hσ, hholds⟩ :=
        h.put (((Op.fileWrite message now).writes env r.calls r.state).map Prod.snd)
      rw [writes_fileWrite_eq] at hholds
      simp only [FileSink.step, fileWrite_eq, hσ, Option.map_some, Option.bind_eq_bind,
        Option.bind_some] at hr'
      rw [← Option.some.inj hr']
      exact hholds.congr rfl rfl
  | fileName =>
      rw [← Option.some.inj hr', held_of_quiet rfl rfl]
      exact h
  | overrideLogDetails func =>
      have hholds : Holds held (r.state.overrideLogDetails func) := h.congr rfl rfl
      rw [← Option.some.inj hr', held_of_quiet rfl rfl]
      exact hholds
  | overrideLogHeader change =>
      have hholds : Holds held (r.state.overrideLogHeader change) := h.congr rfl rfl
      rw [← Option.some.inj hr', held_of_quiet rfl rfl]
      exact hholds
  | changeLogFile directory logger_id level now nowName nowHeader opens =>
      rw [held_changeLogFile]
      cases opens with
      | false =>
          obtain ⟨σ, hσ, hholds⟩ := h.insert (.notice (unableToChange
            (env.localtime_formatted now (date_formatted ++ " " ++ time_formatted))
            (r.state.prospect_log env directory logger_id level nowName)))
          simp only [FileSink.step, changeLogFile_failure_eq rfl nowHeader hσ,
            Option.bind_eq_bind, Option.bind_some] at hr'
          rw [← Option.some.inj hr']
          obtain ⟨out, view, hready, hpath, hheld⟩ := hholds
          refine ⟨out, view, hready, hpath, ?_⟩
          intro path
          have hnone := messageCells_writes_changeLogFile env r.calls r.state directory logger_id
            level now nowName nowHeader false path
          simp only [Op.writes, Bool.false_eq_true, if_false] at hnone
          rw [hheld path]
          dsimp only
          rw [hnone, List.append_nil]
          rfl
      | true =>
          obtain ⟨out, view, hready, -, hheld⟩ := h
          obtain ⟨σ, out', view', hσ, hready', hview', hpath, hname⟩ :=
            hready.changeLogFile_success env directory logger_id level now nowName nowHeader rfl
          simp only [FileSink.step, hσ, Option.bind_eq_bind, Option.bind_some] at hr'
          rw [← Option.some.inj hr']
          refine ⟨out', view', hready', hpath.trans hname.symm, ?_⟩
          have hnew : (Op.changeLogFile directory logger_id level now nowName nowHeader true).newLog
              env r.state.sink._log_prefix_backup =
                some (r.state.prospect_log env directory logger_id level nowName) := rfl
          intro path
          rw [messageCells_annotated hview']
          dsimp only
          rw [hnew]
          by_cases hp : path = r.state.prospect_log env directory logger_id level nowName
          · rw [hp, Function.update_self, if_pos rfl, messageCells_nil]
          · rw [Function.update_of_ne hp, hheld, if_neg (by simpa using Ne.symm hp)]

theorem Holds.runFrom {held : String → List Cell} {r : Run} (h : Holds held r.state)
    (env : Env) (ops : List Op) :
    ∃ r' held', FileSink.runFrom env r ops = some r' ∧ Holds held' r'.state := by
  induction ops generalizing r held with
  | nil => exact ⟨r, held, rfl, h⟩
  | cons op ops ih =>
      have hopen : r.state.sink._outptr.isSome := by
        obtain ⟨out, view, hready, -, -⟩ := h
        rw [hready.outptr]
        rfl
      obtain ⟨r₁, hr₁, -⟩ := exists_step hopen env op
      obtain ⟨r', held', hr', hheld'⟩ := ih (h.step hr₁)
      refine ⟨r', held', ?_, hheld'⟩
      simpa [FileSink.runFrom, hr₁] using hr'

/-- The files of two runs that go on alike keep the same messages. -/
theorem AlikeRun.holds {path : String} {r r' : Run} (h : AlikeRun path r r')
    {held : String → List Cell} (hheld : Holds held r.state) (hheld' : Holds held r'.state)
    {env : Env} {ops : List Op} {r₁ r₁' : Run} (hr₁ : FileSink.runFrom env r ops = some r₁)
    (hr₁' : FileSink.runFrom env r' ops = some r₁') :
    ∃ held', Holds held' r₁.state ∧ Holds held' r₁'.state := by
  induction ops generalizing r r' held with
  | nil =>
      obtain rfl : r = r₁ := Option.some.inj hr₁
      obtain rfl : r' = r₁' := Option.some.inj hr₁'
      exact ⟨held, hheld, hheld'⟩
  | cons op ops ih =>
      obtain ⟨r₂, r₂', hr₂, hr₂', halike⟩ := h.step env op
      have hnext : op.held env r'.calls r'.state held = op.held env r.calls r.state held := by
        ext path' : 1
        rw [Op.held, Op.held, h.calls, h.state.newLog, h.state.writes]
      have hheld₂' := hheld'.step hr₂'
      rw [hnext] at hheld₂'
      refine ih halike (hheld.step hr₂) hheld₂' ?_ ?_
      · simpa [FileSink.runFrom, hr₂] using hr₁
      · simpa [FileSink.runFrom, hr₂'] using hr₁'

/-- The file holds `cs`, and a stream that writes to it stands at the end. -/
structure Ends (path : String) (cs : List Cell) (σ : State) : Prop where
  file : σ.disk.files path = some cs
  outptr : ∃ out, σ.sink._outptr = some out ∧ out.path = σ.fileName ∧
    (out.path = path → out.offset = cs.length)

section
variable {path : String} {cs : List Cell} {σ : State} {env : Env}

theorem Ends.congr (h : Ends path cs σ) {sink : FileSink}
    (hname : sink._log_file_with_path = σ.sink._log_file_with_path)
    (hout : sink._outptr = σ.sink._outptr) : Ends path cs { σ with sink := sink } := by
  obtain ⟨out, hsome, hpath, hoffset⟩ := h.outptr
  exact ⟨h.file, out, hout.trans hsome, hpath.trans hname.symm, hoffset⟩

theorem Ends.insert (h : Ends path cs σ) (part : Part) :
    ∃ σ', σ.insert part.cells = some σ' ∧
      Ends path (cs ++ bytesOf path [(σ.fileName, part)]) σ' := by
  obtain ⟨out, hout, hname, hoffset⟩ := h.outptr
  refine ⟨_, insert_eq hout part.cells, ?_⟩
  by_cases hp : out.path = path
  · have hbytes : bytesOf path [(σ.fileName, part)] = part.cells := by
      rw [← hname, hp, bytesOf_singleton]
    have hfile : σ.disk.files out.path = some cs := by rw [hp, h.file]
    rw [hbytes]
    refine ⟨?_, _, rfl, hname, ?_⟩
    · have hwrite := files_write_self hfile part.cells
      rw [hp, hoffset hp] at hwrite
      have happend : Overwrite.writeAt ⟨'\x00', none⟩ cs cs.length part.cells =
          cs ++ part.cells := by
        simpa using Overwrite.writeAt_append ⟨'\x00', none⟩ cs [] part.cells
      rw [happend] at hwrite
      exact hwrite
    · intro _
      simp [OFStream.write, hoffset hp]
  · have hne : σ.fileName ≠ path := by rwa [← hname]
    rw [bytesOf_singleton_of_ne hne, List.append_nil]
    refine ⟨?_, _, rfl, hname, ?_⟩
    · rw [← h.file]
      exact files_write_of_ne (Ne.symm hp) part.cells σ.disk
    · intro heq
      exact absurd heq hp

theorem Ends.put (h : Ends path cs σ) (parts : List Part) :
    ∃ σ', σ.put parts = some σ' ∧
      Ends path (cs ++ bytesOf path (parts.map (Prod.mk σ.fileName))) σ' := by
  induction parts generalizing σ cs with
  | nil => exact ⟨σ, rfl, by simpa [bytesOf, partsOf] using h⟩
  | cons part parts ih =>
      obtain ⟨σ₁, hσ₁, h₁⟩ := h.insert part
      obtain ⟨σ', hσ', h'⟩ := ih h₁
      have hname : σ₁.fileName = σ.fileName := by
        rw [State.fileName, sink_insert hσ₁]
        rfl
      refine ⟨σ', ?_, ?_⟩
      · rw [State.put, List.foldlM_cons, hσ₁]
        exact hσ'
      · rw [hname, List.append_assoc, ← bytesOf_append] at h'
        exact h'

/-- A change of file adds to the file what it writes there, if the file is another one or one
that it opens and that was not in use. -/
theorem Ends.changeLogFile {directory logger_id : String} {level : LEVELS} (now : Int)
    {nowName : Int} (nowHeader : Int) (calls : ℕ) {prospect : String}
    (hprospect : σ.prospect_log env directory logger_id level nowName = prospect)
    (h : Ends path cs { σ with disk :=
      { σ.disk with files := Function.update σ.disk.files prospect (some []) } })
    (hnew : prospect = path → cs = [] ∧ σ.fileName ≠ path) :
    ∃ name σ', σ.changeLogFile env directory logger_id level now nowName nowHeader true =
        some (name, σ') ∧
      Ends path (cs ++ bytesOf path ((Op.changeLogFile directory logger_id level now nowName
        nowHeader true).writes env calls σ)) σ' := by
  set now_formatted := env.localtime_formatted now (date_formatted ++ " " ++ time_formatted)
  set inOld : List (String × Part) :=
    [(σ.fileName, .header (G3log.header env σ.sink._header nowHeader)),
      (σ.fileName, .notice (changingLog now_formatted σ.fileName prospect))] with hinOld
  obtain ⟨σ₁, hσ₁, h₁⟩ := h.insert (.header (G3log.header env σ.sink._header nowHeader))
  have hname₁ : σ₁.fileName = σ.fileName := by
    rw [State.fileName, sink_insert hσ₁]
    rfl
  obtain ⟨σ₂, hσ₂, h₂⟩ := h₁.insert (.notice (changingLog now_formatted σ.fileName prospect))
  have hname₂ : σ₂.fileName = σ.fileName := by
    rw [State.fileName, sink_insert hσ₂]
    exact hname₁
  rw [hname₁, List.append_assoc, ← bytesOf_append] at h₂
  have h₂ : Ends path (cs ++ bytesOf path inOld) σ₂ := h₂
  have hchange : Ends path (cs ++ bytesOf path inOld) { σ₂ with sink :=
      { σ₂.sink with _log_file_with_path := prospect, _outptr := some ⟨prospect, 0⟩ } } := by
    refine ⟨h₂.file, ⟨prospect, 0⟩, rfl, rfl, ?_⟩
    intro heq
    obtain ⟨hcs, hne⟩ := hnew heq
    have hnone : bytesOf path inOld = [] := by
      rw [bytesOf, partsOf_eq_nil]
      · rfl
      · intro w hw
        simp only [hinOld, List.mem_cons, List.not_mem_nil, or_false] at hw
        rcases hw with rfl | rfl
        · exact hne
        · exact hne
    rw [hcs, hnone]
    rfl
  obtain ⟨σ₃, hσ₃, h₃⟩ := hchange.insert (.notice (newLogFile now_formatted σ.fileName))
  refine ⟨prospect, σ₃, changeLogFile_success_eq hprospect hσ₁ hσ₂ hσ₃, ?_⟩
  rw [List.append_assoc, ← bytesOf_append] at h₃
  simp only [Op.writes, if_true, hprospect]
  exact h₃

end

section
variable {path : String} {cs : List Cell} {r r' : Run} {env : Env} {op : Op} {ops : List Op}

/-- A call that does not open the file adds to it what it writes there. -/
theorem Ends.step (h : Ends path cs r.state)
    (hr' : FileSink.step env r op = some r')
    (hnot : op.newLog env r.state.sink._log_prefix_backup ≠ some path) :
    Ends path (cs ++ bytesOf path (op.writes env r.calls r.state)) r'.state := by
  cases op with
  | fileWrite message now =>
      obtain ⟨σ, hσ, hends⟩ :=
        h.put (((Op.fileWrite message now).writes env r.calls r.state).map Prod.snd)
      rw [writes_fileWrite_eq] at hends
      simp only [FileSink.step, fileWrite_eq, hσ, Option.map_some, Option.bind_eq_bind,
        Option.bind_some] at hr'
      rw [← Option.some.inj hr']
      exact hends.congr rfl rfl
  | fileName =>
      rw [← Option.some.inj hr']
      simpa [Op.writes, bytesOf, partsOf] using h
  | overrideLogDetails func =>
      have hends : Ends path cs (r.state.overrideLogDetails func) := h.congr rfl rfl
      rw [← Option.some.inj hr']
      simpa [Op.writes, bytesOf, partsOf] using hends
  | overrideLogHeader change =>
      have hends : Ends path cs (r.state.overrideLogHeader change) := h.congr rfl rfl
      rw [← Option.some.inj hr']
      simpa [Op.writes, bytesOf, partsOf] using hends
  | changeLogFile directory logger_id level now nowName nowHeader opens =>
      cases opens with
      | false =>
          obtain ⟨σ, hσ, hends⟩ := h.insert (.notice (unableToChange
            (env.localtime_formatted now (date_formatted ++ " " ++ time_formatted))
            (r.state.prospect_log env directory logger_id level nowName)))
          simp only [FileSink.step, changeLogFile_failure_eq rfl nowHeader hσ,
            Option.bind_eq_bind, Option.bind_some] at hr'
          rw [← Option.some.inj hr']
          exact hends
      | true =>
          have hne : r.state.prospect_log env directory logger_id level nowName ≠ path := by
            intro heq
            exact hnot (congrArg some heq)
          have hopen : Ends path cs { r.state with disk :=
              { r.state.disk with
                files := Function.update r.state.disk.files
                  (r.state.prospect_log env directory logger_id level nowName) (some []) } } := by
            refine ⟨?_, h.outptr⟩
            rw [← h.file]
            exact Function.update_of_ne (Ne.symm hne) ..
          obtain ⟨name, σ, hσ, hends⟩ := Ends.changeLogFile now nowHeader r.calls rfl hopen
            (fun heq => absurd heq hne)
          simp only [FileSink.step, hσ, Option.bind_eq_bind, Option.bind_some] at hr'
          rw [← Option.some.inj hr']
          exact hends

theorem Ends.runFrom (h : Ends path cs r.state)
    (hr' : FileSink.runFrom env r ops = some r')
    (hnot : path ∉ ops.filterMap (Op.newLog env r.state.sink._log_prefix_backup)) :
    Ends path (cs ++ bytesOf path (writesAlong env r ops)) r'.state := by
  induction ops generalizing r cs with
  | nil =>
      obtain rfl : r = r' := Option.some.inj hr'
      simpa [writesAlong, bytesOf, partsOf] using h
  | cons op ops ih =>
      obtain ⟨r₁, hr₁, hrest⟩ := Option.bind_eq_some_iff.mp hr'
      have hop : op.newLog env r.state.sink._log_prefix_backup ≠ some path := by
        intro hnew
        exact hnot (by simp [List.filterMap_cons_some hnew])
      have hops : path ∉ ops.filterMap (Op.newLog env r.state.sink._log_prefix_backup) :=
        fun hmem => hnot ((List.Sublist.filterMap _ (List.sublist_cons_self op ops)).mem hmem)
      have hend := ih (h.step hr₁ hop) hrest (by rwa [verified_step hr₁])
      rw [writesAlong_cons hr₁, bytesOf_append, ← List.append_assoc]
      exact hend

end

end G3log.FileSink
