import G3log.FileParts
import G3log.Lib.Transition

/-!
# What the stream of a sink holds back

A `std::ofstream` keeps what is inserted in a buffer, and writes the front of it to the file
whenever it likes. Only `std::flush`, and closing the stream, have it write everything. Of
the texts of a sink the messages are flushed, and so is the last line; headers and notices
are not. `FileSink` writes every text at once; here the operations are taken apart into the
statements that have to do with the stream, and the buffer is part of the state, so that
every moment has the files as somebody else finds them.

## Main definitions

* `FileSink.Stmt`, `Op.stmts` -- the statements, and those of each operation.
* `FileSink.BufferedRun`, `buffered` -- a run of a sink with a buffer.
* `FileSink.buffered_refines` -- with its buffer written out, it is a run of `FileSink`.
-/

namespace G3log.FileSink

open Transition

/-! ## The buffer -/

/-- A statement of an operation that has to do with the stream. -/
inductive Stmt
  /-- `filestream() << text` -/
  | insert (text : List Cell)
  | flush
  /-- `_outptr = std::move(log_stream)`, which closes the stream there was. -/
  | moveStream (path : String)

/-- The sink with the files as they are, and what its stream has not written yet. -/
structure Buffered where
  state : State
  buffer : List Cell

/-- The stream writes the front of its buffer. -/
def Buffered.spill (n : ℕ) (b : Buffered) : Option Buffered :=
  (b.state.insert (b.buffer.take n)).map fun σ => ⟨σ, b.buffer.drop n⟩

/-- The files as they are once the buffer has been written. -/
def Buffered.settle (b : Buffered) : Option State := b.state.insert b.buffer

/-- The sink goes on with a stream that has been opened. -/
def State.moveStream (path : String) (σ : State) : State :=
  { σ with sink := { σ.sink with
      _log_file_with_path := path
      _outptr := some ⟨path, 0⟩ } }

def Stmt.exec : Stmt → Buffered → Option Buffered
  | .insert text, b => b.state.sink._outptr.map fun _ => { b with buffer := b.buffer ++ text }
  | .flush, b => b.spill b.buffer.length
  | .moveStream path, b =>
      (b.spill b.buffer.length).map fun b => { b with state := b.state.moveStream path }

/-- The statement of a stream that holds nothing back. -/
def Stmt.execNow : Stmt → State → Option State
  | .insert text, σ => σ.insert text
  | .flush, σ => some σ
  | .moveStream path, σ => some (σ.moveStream path)

def runNow : List Stmt → State → Option State
  | [], σ => some σ
  | st :: sts, σ => (st.execNow σ).bind (runNow sts)

/-! ## The operations -/

/-- The statements of a call, once it has opened what it opens. -/
def Op.stmts (env : Env) (calls : ℕ) (σ : State) : Op → List Stmt
  | .fileWrite message now =>
      (if σ.sink._firstEntry then [.insert (own (header env σ.sink._header now))] else []) ++
      if message.level_value < σ.sink.min_loglevel_.value then []
      else [.insert (ofMessage calls (message.toString env σ.sink._log_details_func).1), .flush]
  | .changeLogFile directory logger_id level now nowName nowHeader opens =>
      let now_formatted := env.localtime_formatted now (date_formatted ++ " " ++ time_formatted)
      let prospect := σ.prospect_log env directory logger_id level nowName
      if opens then
        [.insert (own (header env σ.sink._header nowHeader)),
          .insert (own (changingLog now_formatted σ.fileName prospect)),
          .moveStream prospect,
          .insert (own (newLogFile now_formatted σ.fileName))]
      else [.insert (own (unableToChange now_formatted prospect))]
  | .fileName | .overrideLogDetails _ | .overrideLogHeader _ => []

/-- The file that a call opens is emptied. -/
def Op.opened (env : Env) (σ : State) (op : Op) : State :=
  match op.newLog env σ.sink._log_prefix_backup with
  | some path => { σ with disk := (openLogFile path true σ.disk).2 }
  | none => σ

/-- What else a call has done when it returns. -/
def Op.record (env : Env) (r : Run) : Op → Run
  | .fileWrite message _ =>
      { r with
        state := { r.state with sink := { r.state.sink with _firstEntry := false } }
        calls := r.calls + 1
        accepted :=
          if message.level_value < r.state.sink.min_loglevel_.value then r.accepted
          else r.accepted ++
            [(r.calls, (message.toString env r.state.sink._log_details_func).1)] }
  | .fileName => r
  | .overrideLogDetails func => { r with state := r.state.overrideLogDetails func }
  | .overrideLogHeader change => { r with state := r.state.overrideLogHeader change }
  | .changeLogFile _ _ _ _ _ _ _ => { r with used := r.used ++ [r.state.fileName] }

/-- The statements of `~FileSink`, which closes the stream as well. -/
def destroyStmts (env : Env) (now : Int) : List Stmt := [.insert (own (exit_msg env now)), .flush]

/-- A stream that holds nothing back makes a call of its statements. -/
theorem step_eq_stmts (env : Env) (r : Run) (op : Op) :
    step env r op =
      (runNow (op.stmts env r.calls r.state) (op.opened env r.state)).map fun σ =>
        op.record env { r with state := σ } := by
  obtain ⟨⟨⟨func, path, verified, link, outptr, head, first, level⟩, disk⟩, calls, accepted,
    used⟩ := r
  cases op with
  | fileWrite message now =>
      by_cases hmin : message.level_value < level.value
      · cases outptr <;> cases first <;> simp [step, State.fileWrite, State.firstEntry,
          State.addLogFileHeader, State.insert, Op.stmts, Op.opened, Op.newLog, Op.record,
          runNow, Stmt.execNow, hmin]
      · cases outptr <;> cases first <;> simp [step, State.fileWrite, State.firstEntry,
          State.addLogFileHeader, State.insert, Op.stmts, Op.opened, Op.newLog, Op.record,
          runNow, Stmt.execNow, hmin]
  | fileName => rfl
  | overrideLogDetails func => rfl
  | overrideLogHeader change => rfl
  | changeLogFile directory logger_id chosen now nowName nowHeader opens =>
      cases opens <;> cases outptr <;> simp [step, State.changeLogFile, createLogFile,
        openLogFile, State.addLogFileHeader, State.insert, Op.stmts, Op.opened, Op.newLog,
        Op.record, runNow, Stmt.execNow, State.moveStream, State.fileName, State.prospect_log,
        unableToChange, changingLog, newLogFile]

/-! ## Runs -/

/-- What the thread of the sink is doing. -/
inductive Doing
  | nothing
  | call (op : Op)
  /-- `~FileSink` -/
  | destroy (now : Int)
  | destroyed

/-- A run so far, with what the stream holds back and the statements that are to come. -/
structure BufferedRun where
  run : Run
  buffer : List Cell
  doing : Doing
  todo : List Stmt

/-- The thread calls an operation, makes its next statement or returns, and the stream may
write the front of its buffer at any time. -/
inductive BufferedAction
  | call (op : Op)
  | destroy (now : Int)
  | stmt
  | ret
  | spill (n : ℕ)

namespace BufferedRun

def stream (b : BufferedRun) : Buffered := ⟨b.run.state, b.buffer⟩

def withStream (b : BufferedRun) (s : Buffered) : BufferedRun :=
  { b with
    run := { b.run with state := s.state }
    buffer := s.buffer }

def step (env : Env) (b : BufferedRun) : BufferedAction → Option BufferedRun
  | .call op =>
      match b.doing with
      | .nothing => some
          { b with
            run := { b.run with state := op.opened env b.run.state }
            doing := .call op
            todo := op.stmts env b.run.calls b.run.state }
      | _ => none
  | .destroy now =>
      match b.doing with
      | .nothing => some { b with doing := .destroy now, todo := destroyStmts env now }
      | _ => none
  | .stmt =>
      match b.todo with
      | [] => none
      | st :: sts => (st.exec b.stream).map fun s => { b.withStream s with todo := sts }
  | .ret =>
      match b.doing, b.todo with
      | .call op, [] => some { b with run := op.record env b.run, doing := .nothing }
      -- the stream is a member, and is closed
      | .destroy _, [] =>
          (b.stream.spill b.buffer.length).map fun s => { b.withStream s with doing := .destroyed }
      | _, _ => none
  | .spill n =>
      match b.doing with
      | .destroyed => none
      | _ => (b.stream.spill n).map b.withStream

/-- A change of file does not open the file that is in use. -/
def Elsewhere (env : Env) (b : BufferedRun) : BufferedAction → Prop
  | .call op => ∀ path ∈ op.newLog env b.run.state.sink._log_prefix_backup,
      ∀ out ∈ b.run.state.sink._outptr, path ≠ out.path
  | _ => True

instance (env : Env) (b : BufferedRun) : DecidablePred (b.Elsewhere env)
  | .call op => inferInstanceAs (Decidable (∀ path ∈ op.newLog env _,
      ∀ out ∈ b.run.state.sink._outptr, path ≠ out.path))
  | .destroy _ | .stmt | .ret | .spill _ => inferInstanceAs (Decidable True)

end BufferedRun

/-- A sink with a stream that holds things back. -/
def buffered (env : Env) (σ : State) : System BufferedRun BufferedAction where
  Start b := b = ⟨start σ, [], .nothing, []⟩
  step := BufferedRun.step env

/-! ## The buffer written out -/

theorem write_append (out : OFStream) (disk : Disk) (text more : List Cell) :
    out.write (text ++ more) disk = (out.write text disk).1.write more (out.write text disk).2 := by
  simp only [OFStream.write, List.length_append, Nat.add_assoc, Function.update_self,
    Option.map_map, Function.comp_def, Overwrite.writeAt_writeAt, Function.update_idem]

/-- Two texts one after the other are one. -/
theorem insert_append (σ : State) (text more : List Cell) :
    σ.insert (text ++ more) = (σ.insert text).bind (·.insert more) := by
  cases hout : σ.sink._outptr with
  | none => simp [State.insert, hout]
  | some out => simp [State.insert, hout, write_append]

/-- However much of the buffer is written, the rest comes behind it. -/
theorem settle_spill {b b' : Buffered} {n : ℕ} (h : b.spill n = some b') :
    b'.settle = b.settle := by
  obtain ⟨σ, hσ, rfl⟩ := Option.map_eq_some_iff.mp h
  have hsplit := insert_append b.state (b.buffer.take n) (b.buffer.drop n)
  rw [List.take_append_drop, hσ] at hsplit
  exact hsplit.symm

/-- A stream that writes is not null. -/
theorem isSome_settle_spill {b b' : Buffered} {n : ℕ} (h : b.spill n = some b') :
    b'.settle.isSome := by
  obtain ⟨σ, hσ, rfl⟩ := Option.map_eq_some_iff.mp h
  obtain ⟨out, -, rfl⟩ := Option.map_eq_some_iff.mp hσ
  rfl

/-- A stream at the start of a file writes nothing there, when it has nothing to write. -/
theorem insert_nil {σ : State} {path : String} (h : σ.sink._outptr = some ⟨path, 0⟩) :
    σ.insert [] = some σ := by
  have hnil : (fun cs : List Cell => Overwrite.writeAt ⟨'\x00', none⟩ cs 0 []) = id := by
    funext cs
    simp [Overwrite.writeAt]
  obtain ⟨⟨func, file, verified, link, outptr, head, first, level⟩, disk⟩ := σ
  obtain rfl : outptr = some ⟨path, 0⟩ := h
  simp [State.insert, OFStream.write, hnil]

/-- A statement comes to the same whether it finds the buffer written or not. -/
theorem Stmt.settle_exec {st : Stmt} {b b' : Buffered} (h : st.exec b = some b') :
    b'.settle = b.settle.bind st.execNow := by
  cases st with
  | insert text =>
      obtain ⟨out, -, rfl⟩ := Option.map_eq_some_iff.mp h
      exact insert_append _ _ _
  | flush =>
      rw [settle_spill h]
      cases b.settle <;> rfl
  | moveStream path =>
      obtain ⟨s, hs, rfl⟩ := Option.map_eq_some_iff.mp h
      obtain ⟨σ, hσ, rfl⟩ := Option.map_eq_some_iff.mp hs
      rw [List.take_length] at hσ
      rw [Buffered.settle, Buffered.settle, hσ, List.drop_length]
      exact insert_nil rfl

theorem Stmt.isSome_settle {st : Stmt} {b b' : Buffered} (h : st.exec b = some b') :
    b'.settle.isSome := by
  cases st with
  | insert text =>
      obtain ⟨out, hout, rfl⟩ := Option.map_eq_some_iff.mp h
      simp [Buffered.settle, State.insert, hout]
  | flush => exact isSome_settle_spill h
  | moveStream path =>
      obtain ⟨s, -, rfl⟩ := Option.map_eq_some_iff.mp h
      rfl

/-- Opening another file is nothing to the stream. -/
theorem insert_openLogFile {σ : State} {out : OFStream} {path : String}
    (hout : σ.sink._outptr = some out) (hne : path ≠ out.path) (text : List Cell) :
    State.insert text { σ with disk := (openLogFile path true σ.disk).2 } =
      (σ.insert text).map fun σ' => { σ' with disk := (openLogFile path true σ'.disk).2 } := by
  simp [State.insert, hout, openLogFile, OFStream.write, Function.update_of_ne hne.symm,
    Function.update_comm hne]

/-- What a call opens, and what it reads, does not depend on the buffer. -/
theorem opened_insert {env : Env} {b : BufferedRun} {op : Op}
    (helsewhere : b.Elsewhere env (.call op)) (text : List Cell) :
    (op.opened env b.run.state).insert text =
      (b.run.state.insert text).map (op.opened env) := by
  cases hout : b.run.state.sink._outptr with
  | none =>
      cases hnew : op.newLog env b.run.state.sink._log_prefix_backup <;>
        simp [State.insert, Op.opened, hnew, hout]
  | some out =>
      cases hnew : op.newLog env b.run.state.sink._log_prefix_backup with
      | none => simp [State.insert, Op.opened, hnew, hout]
      | some path =>
          simp only [Op.opened, hnew]
          rw [insert_openLogFile hout (helsewhere path hnew out hout)]
          simp [State.insert, hnew, hout]

theorem stmts_insert {σ σ' : State} {text : List Cell} (h : σ.insert text = some σ') (env : Env)
    (calls : ℕ) (op : Op) : op.stmts env calls σ' = op.stmts env calls σ := by
  obtain ⟨out, -, rfl⟩ := Option.map_eq_some_iff.mp h
  cases op <;> rfl

/-- Nor does what it records. -/
theorem record_insert (env : Env) (r : Run) (op : Op) (text : List Cell) :
    (op.record env r).state.insert text =
      (r.state.insert text).map fun σ => (op.record env { r with state := σ }).state := by
  cases hout : r.state.sink._outptr with
  | none => cases op <;> simp [State.insert, hout, Op.record, State.overrideLogDetails,
      State.overrideLogHeader]
  | some out => cases op <;> simp [State.insert, hout, Op.record, State.overrideLogDetails,
      State.overrideLogHeader]

/-- What a call leaves of the sink does not depend on the calls before it. -/
theorem record_state (env : Env) {r r' : Run} (h : r.state = r'.state) (op : Op) :
    (op.record env r).state = (op.record env r').state := by
  cases op <;> simp [Op.record, h]

/-! ## The sink with a buffer and the one without -/

/-- The calls that have returned are the same. -/
structure SameCalls (r r' : Run) : Prop where
  calls : r.calls = r'.calls
  accepted : r.accepted = r'.accepted
  used : r.used = r'.used

theorem SameCalls.record {env : Env} {r r' : Run} (h : SameCalls r r') {text : List Cell}
    {σ : State} (hσ : r.state.insert text = some σ) (op : Op) :
    SameCalls (op.record env r) (op.record env { r' with state := σ }) := by
  obtain ⟨out, -, rfl⟩ := Option.map_eq_some_iff.mp hσ
  cases op <;> constructor <;> simp [Op.record, h.calls, h.accepted, h.used, State.fileName]

/-- How the files with the buffer written, and the statements that are to come, are related to
the run `r` of the calls that have returned. -/
def Doing.Refines (env : Env) (r : Run) (σ : State) (settled : Option State)
    (todo : List Stmt) : Doing → Prop
  | .nothing => todo = [] ∧ settled = some r.state
  | .call op => settled.isSome ∧
      (settled.bind (runNow todo)).map (fun σ => op.record env { r with state := σ }) =
        FileSink.step env r op
  | .destroy now => settled.bind (runNow todo) = r.state.destroy env now
  | .destroyed => todo = [] ∧ ∃ now, r.state.destroy env now = some σ

/-- The calls that have returned are a run of a sink without a buffer, and the call in progress
comes to what it does there. -/
def Refines (env : Env) (σ : State) (b : BufferedRun) : Prop :=
  ∃ ops r, FileSink.run env σ ops = some r ∧ SameCalls b.run r ∧
    b.doing.Refines env r b.run.state b.stream.settle b.todo

theorem refines_start (env : Env) (σ : State) (hσ : σ.insert [] = some σ) :
    Refines env σ ⟨start σ, [], .nothing, []⟩ :=
  ⟨[], start σ, rfl, ⟨rfl, rfl, rfl⟩, rfl, hσ⟩

theorem Refines.call {env : Env} {σ : State} {b : BufferedRun} {op : Op}
    (h : Refines env σ b) (hnothing : b.doing = .nothing)
    (helsewhere : b.Elsewhere env (.call op)) :
    Refines env σ
      { b with
        run := { b.run with state := op.opened env b.run.state }
        doing := .call op
        todo := op.stmts env b.run.calls b.run.state } := by
  obtain ⟨ops, r, hrun, hcalls, hdoing⟩ := h
  rw [hnothing] at hdoing
  have hsettle : b.run.state.insert b.buffer = some r.state := hdoing.2
  refine ⟨ops, r, hrun, ⟨hcalls.calls, hcalls.accepted, hcalls.used⟩, ?_⟩
  have hopened : (op.opened env b.run.state).insert b.buffer = some (op.opened env r.state) := by
    rw [opened_insert helsewhere, hsettle]
    rfl
  have hstmts : op.stmts env b.run.calls b.run.state = op.stmts env r.calls r.state := by
    rw [← stmts_insert hsettle, hcalls.calls]
  change ((op.opened env b.run.state).insert b.buffer).isSome ∧
    (((op.opened env b.run.state).insert b.buffer).bind (runNow _)).map _ = _
  rw [hopened, hstmts, step_eq_stmts]
  exact ⟨rfl, rfl⟩

/-- A statement is executed. -/
theorem Refines.stmt {env : Env} {σ : State} {b : BufferedRun} {st : Stmt} {sts : List Stmt}
    {s : Buffered} (h : Refines env σ b) (htodo : b.todo = st :: sts)
    (hs : st.exec b.stream = some s) :
    Refines env σ { b.withStream s with todo := sts } := by
  obtain ⟨ops, r, hrun, hcalls, hdoing⟩ := h
  refine ⟨ops, r, hrun, ⟨hcalls.calls, hcalls.accepted, hcalls.used⟩, ?_⟩
  have hsettle : s.settle.bind (runNow sts) = b.stream.settle.bind (runNow b.todo) := by
    rw [Stmt.settle_exec hs, htodo, Option.bind_assoc]
    rfl
  change b.doing.Refines env r s.state s.settle sts
  cases hb : b.doing with
  | nothing =>
      rw [hb] at hdoing
      simp [Doing.Refines, htodo] at hdoing
  | call op =>
      rw [hb] at hdoing
      refine ⟨Stmt.isSome_settle hs, ?_⟩
      rw [hsettle]
      exact hdoing.2
  | destroy now =>
      rw [hb] at hdoing
      simpa only [Doing.Refines, hsettle] using hdoing
  | destroyed =>
      rw [hb] at hdoing
      simp [Doing.Refines, htodo] at hdoing

/-- The stream writes the front of its buffer. -/
theorem Refines.spill {env : Env} {σ : State} {b : BufferedRun} {n : ℕ} {s : Buffered}
    (h : Refines env σ b) (hdestroyed : b.doing ≠ .destroyed)
    (hs : b.stream.spill n = some s) : Refines env σ (b.withStream s) := by
  obtain ⟨ops, r, hrun, hcalls, hdoing⟩ := h
  refine ⟨ops, r, hrun, ⟨hcalls.calls, hcalls.accepted, hcalls.used⟩, ?_⟩
  change b.doing.Refines env r s.state s.settle b.todo
  rw [settle_spill hs]
  cases hb : b.doing with
  | destroyed => exact absurd hb hdestroyed
  | _ =>
      rw [hb] at hdoing
      exact hdoing

/-- A call returns. -/
theorem Refines.ret {env : Env} {σ : State} {b : BufferedRun} {op : Op}
    (h : Refines env σ b) (hcall : b.doing = .call op) (htodo : b.todo = []) :
    Refines env σ { b with run := op.record env b.run, doing := .nothing } := by
  obtain ⟨ops, r, hrun, hcalls, hdoing⟩ := h
  rw [hcall, htodo] at hdoing
  obtain ⟨hsome, hop⟩ := hdoing
  obtain ⟨τ, hτ⟩ := Option.isSome_iff_exists.mp hsome
  rw [hτ] at hop
  have hstep : FileSink.step env r op = some (op.record env { r with state := τ }) := hop.symm
  refine ⟨ops ++ [op], op.record env { r with state := τ }, ?_, hcalls.record hτ op, htodo, ?_⟩
  · rw [FileSink.run, List.foldlM_append]
    change (FileSink.run env σ ops).bind _ = _
    rw [hrun]
    simp [hstep]
  · have hrecord : (op.record env b.run).state.insert b.buffer =
        some (op.record env { b.run with state := τ }).state := by
      rw [record_insert, show b.run.state.insert b.buffer = some τ from hτ]
      rfl
    refine hrecord.trans (congrArg some ?_)
    exact @record_state env { b.run with state := τ } { r with state := τ } rfl op

theorem Refines.step {env : Env} {σ : State} {b b' : BufferedRun} {a : BufferedAction}
    (h : Refines env σ b) (helsewhere : b.Elsewhere env a) (hstep : b.step env a = some b') :
    Refines env σ b' := by
  cases a with
  | call op =>
      simp only [BufferedRun.step] at hstep
      split at hstep
      · next hnothing =>
          obtain rfl := Option.some.inj hstep
          exact h.call hnothing helsewhere
      · cases hstep
  | destroy now =>
      simp only [BufferedRun.step] at hstep
      split at hstep
      · next hnothing =>
          obtain rfl := Option.some.inj hstep
          obtain ⟨ops, r, hrun, hcalls, hdoing⟩ := h
          rw [hnothing] at hdoing
          refine ⟨ops, r, hrun, hcalls, ?_⟩
          change (b.stream.settle.bind (runNow (destroyStmts env now))) = _
          rw [hdoing.2]
          simp [runNow, destroyStmts, Stmt.execNow, State.destroy]
      · cases hstep
  | stmt =>
      simp only [BufferedRun.step] at hstep
      split at hstep
      · cases hstep
      · next htodo =>
          obtain ⟨s, hs, rfl⟩ := Option.map_eq_some_iff.mp hstep
          exact h.stmt htodo hs
  | ret =>
      simp only [BufferedRun.step] at hstep
      split at hstep
      · next hcall htodo =>
          obtain rfl := Option.some.inj hstep
          exact h.ret hcall htodo
      · next now hdestroy htodo =>
          obtain ⟨s, hs, rfl⟩ := Option.map_eq_some_iff.mp hstep
          obtain ⟨ops, r, hrun, hcalls, hdoing⟩ := h
          rw [hdestroy, htodo] at hdoing
          refine ⟨ops, r, hrun, ⟨hcalls.calls, hcalls.accepted, hcalls.used⟩, htodo, now, ?_⟩
          obtain ⟨τ, hτ, rfl⟩ := Option.map_eq_some_iff.mp hs
          have hsettle : b.stream.settle = some τ := by
            rw [← hτ, BufferedRun.stream, List.take_length]
            rfl
          rw [← hdoing, hsettle]
          rfl
      · cases hstep
  | spill n =>
      simp only [BufferedRun.step] at hstep
      split at hstep
      · cases hstep
      · next hdestroyed =>
          obtain ⟨s, hs, rfl⟩ := Option.map_eq_some_iff.mp hstep
          exact h.spill hdestroyed hs

/-- A sink whose stream writes its buffer as it likes is, once the buffer is written, the sink
that writes every text at once; and when it has been destroyed its files are those that one
leaves. -/
theorem buffered_refines {env : Env} {logPrefix log_directory logger_id : String}
    {level : LEVELS} {now : Int} {opens opensFallback : Bool} {disk : Disk} {σ : State}
    (hσ : create env logPrefix log_directory level logger_id now opens opensFallback disk =
      some σ) (hopen : σ.sink._outptr.isSome) {b : BufferedRun}
    (h : (buffered env σ).ReachableBy (BufferedRun.Elsewhere env) b) : Refines env σ b := by
  refine h.invariant (fun b hb => ?_) fun b a b' _ helsewhere hb hstep => hb.step helsewhere hstep
  obtain rfl : b = _ := hb
  exact refines_start env σ (insert_nil (create_files hσ hopen).1)

/-- A message and a change of file, and the stream writes what it likes in between. -/
def bufferedRunAtEpoch : List BufferedAction :=
  [.call (.fileWrite greeting 0), .stmt, .spill 40, .stmt, .spill 7, .stmt, .ret,
    .call (.changeLogFile "/var/log/" "" G3LOG_INFO 0 0 0 true), .stmt, .spill 3, .stmt, .stmt,
    .spill 11, .stmt, .ret, .destroy 0, .stmt, .stmt, .ret]

theorem buffered_refines_epoch :
    ∃ b, b.doing = .destroyed ∧ Refines epoch sinkAtEpoch b := by
  have hrun : ((buffered epoch sinkAtEpoch).runBy (fun b a => decide (b.Elsewhere epoch a))
      ⟨start sinkAtEpoch, [], .nothing, []⟩ bufferedRunAtEpoch).any
      (fun b => b.doing matches .destroyed) = true := by decide +kernel
  obtain ⟨b, hb, hdoing⟩ := System.exists_reachableBy rfl hrun
  refine ⟨b, ?_, buffered_refines createdAtEpoch_eq sinkAtEpoch_isOpen
    (hb.mono fun _ _ => of_decide_eq_true)⟩
  cases h : b.doing with
  | destroyed => rfl
  | _ => simp [h] at hdoing

end G3log.FileSink
