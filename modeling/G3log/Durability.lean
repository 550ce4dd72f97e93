import G3log.FileBuffer

/-!
# What a process that dies leaves behind

When the process dies, the files are as the streams have written them so far, and what is
still in a buffer is gone. A message is flushed before `fileWrite` returns, so it is in its
file then, whole, whatever happens after (`survives_crash`). Of the message that is being
written a first part may be there, at the end of the file in use. This takes that no change of
file opens the file in use or one that holds a message.

## Main definitions

* `FileSink.Op.accepted` -- the text that a call writes as a message.
* `FileSink.Held` -- the messages are in the files; what is not written yet, and what is.
* `FileSink.Durable` -- the invariant: with the stage that the call in progress has come to.
* `FileSink.AfterCrash` -- what is found in the files.
-/

namespace G3log.FileSink

open Transition Overwrite

/-- The message that a call writes, if it is one at or above the level. -/
def Op.accepted (env : Env) (σ : State) : Op → Option String
  | .fileWrite message _ =>
      if message.level_value < σ.sink.min_loglevel_.value then none
      else some (message.toString env σ.sink._log_details_func).1
  | _ => none

/-- A change of file opens one that is not in use, and that holds no message. -/
def BufferedRun.Fresh (env : Env) (b : BufferedRun) : BufferedAction → Prop
  | .call op => ∀ path ∈ op.newLog env b.run.state.sink._log_prefix_backup,
      (∀ out ∈ b.run.state.sink._outptr, path ≠ out.path) ∧
        ∀ cs ∈ b.run.state.disk.files path, Clean cs
  | _ => True

instance (env : Env) (b : BufferedRun) : DecidablePred (b.Fresh env)
  | .call op =>
      have (cs : List Cell) : Decidable (Clean cs) :=
        inferInstanceAs (Decidable (∀ c ∈ cs, c.origin = none))
      inferInstanceAs (Decidable (∀ path ∈ op.newLog env _,
        (∀ out ∈ b.run.state.sink._outptr, path ≠ out.path) ∧
          ∀ cs ∈ b.run.state.disk.files path, Clean cs))
  | .destroy _ | .stmt | .ret | .spill _ => inferInstanceAs (Decidable True)

/-- What is found when the process has died. -/
structure AfterCrash (env : Env) (b : BufferedRun) : Prop where
  /-- The messages of the calls that have returned. -/
  found : ∀ i text, (i, text) ∈ b.run.accepted →
    ∃ path ∈ b.run.used, FoundIn b.run.state.disk.files i text path
  /-- Nothing else, but for a part of the message that is being written. -/
  torn : ∀ path cs, b.run.state.disk.files path = some cs → ∃ whole part, cs = whole ++ part ∧
    TagsOrdered Cell.origin whole ∧
    (∀ c ∈ whole, ∀ i, c.origin = some i → ∃ text, (i, text) ∈ b.run.accepted) ∧
    (part ≠ [] → path = b.run.state.fileName ∧ ∃ op text, b.doing = .call op ∧
      op.accepted env b.run.state = some text ∧ part <+: ofMessage b.run.calls text)

/-! ## Texts in files -/

/-- What a file holds, and nothing if there is no such file. -/
def State.contents (σ : State) (path : String) : List Cell := (σ.disk.files path).getD []

theorem contents_eq {σ : State} {path : String} {cs : List Cell}
    (h : σ.disk.files path = some cs) : σ.contents path = cs := by
  simp [State.contents, h]

theorem eq_own_of_clean {cs : List Cell} (h : Clean cs) :
    cs = own (String.ofList (cs.map Cell.byte)) := by
  simp only [own, String.toList_ofList, List.map_map]
  conv_lhs => rw [← List.map_id cs]
  refine List.map_congr_left fun c hc => ?_
  obtain ⟨byte, origin⟩ := c
  have horigin : origin = none := h _ hc
  simp [horigin]

/-- Files without messages hold all the messages there are before the first call. -/
theorem Filed.start_clean {used : List String} {view : String → List Cell}
    (h : ∀ path, Clean (view path)) : Filed 0 [] used view where
  found := by simp
  nonempty := by simp
  lt_calls := by simp
  mem_accepted path c hc i hi := by simp [h path c hc] at hi
  ordered path := by simpa using TagsOrdered.append_untagged tagsOrdered_nil (h path)

theorem Filed.append_clean {calls : ℕ} {accepted : List (ℕ × String)} {used : List String}
    {view : String → List Cell} (h : Filed calls accepted used view) (path : String)
    {text : List Cell} (htext : Clean text) :
    Filed calls accepted used (Function.update view path (view path ++ text)) := by
  rw [eq_own_of_clean htext]
  exact h.append_own path _

/-! ## Where the messages are -/

/-- The messages of the calls that have returned are in the files. What the file in use holds
more, and then the buffer, are `rest`, which is the sink's own text, and `coming`. -/
structure Held (r : Run) (buffer : List Cell) (base : String → List Cell)
    (rest coming : List Cell) : Prop where
  filed : Filed r.calls r.accepted r.used base
  clean : Clean rest
  inUse : ∃ more, AtEnd r.state (base r.state.fileName ++ more) ∧ more ++ buffer = rest ++ coming
  other : ∀ path ≠ r.state.fileName, r.state.contents path = base path

namespace Held
variable {r : Run} {buffer : List Cell} {base : String → List Cell} {rest coming : List Cell}

/-- A text goes into the buffer. -/
theorem insert (h : Held r buffer base rest []) {text rest' coming' : List Cell}
    (hclean : Clean rest') (htext : rest ++ text = rest' ++ coming') :
    Held r (buffer ++ text) base rest' coming' where
  filed := h.filed
  clean := hclean
  inUse := by
    obtain ⟨more, hend, hmore⟩ := h.inUse
    exact ⟨more, hend, by rw [← List.append_assoc, hmore, List.append_nil, htext]⟩
  other := h.other

/-- The stream writes the front of its buffer. -/
theorem spill (h : Held r buffer base rest coming) {n : ℕ} {s : Buffered}
    (hs : Buffered.spill n ⟨r.state, buffer⟩ = some s) :
    Held { r with state := s.state } s.buffer base rest coming ∧
      s.state.fileName = r.state.fileName ∧
      ∀ path ≠ r.state.fileName, s.state.disk.files path = r.state.disk.files path := by
  obtain ⟨σ, hσ, rfl⟩ := Option.map_eq_some_iff.mp hs
  obtain ⟨more, hend, hmore⟩ := h.inUse
  obtain ⟨σ', hσ', hend', hwrote⟩ := hend.insert (buffer.take n)
  obtain rfl : σ' = σ := Option.some.inj (hσ'.symm.trans hσ)
  have hname : σ'.fileName = r.state.fileName := by rw [State.fileName, hwrote.sink]; rfl
  refine ⟨⟨h.filed, h.clean, ⟨more ++ buffer.take n, ?_, ?_⟩, fun path hpath => ?_⟩, hname,
    hwrote.other⟩
  · change AtEnd σ' (base σ'.fileName ++ _)
    rw [hname, ← List.append_assoc]
    exact hend'
  · rw [List.append_assoc, List.take_append_drop, hmore]
  · have hpath : path ≠ r.state.fileName := fun heq => hpath (heq.trans hname.symm)
    change σ'.contents path = _
    rw [State.contents, hwrote.other path hpath]
    exact h.other path hpath

/-- The stream has written all of it. -/
theorem flush (h : Held r buffer base rest coming) {s : Buffered}
    (hs : Buffered.spill buffer.length ⟨r.state, buffer⟩ = some s) :
    s.buffer = [] ∧ AtEnd s.state (base r.state.fileName ++ (rest ++ coming)) := by
  obtain ⟨⟨-, -, ⟨more, hend, hmore⟩, -⟩, hname, -⟩ := h.spill hs
  obtain ⟨σ, hσ, rfl⟩ := Option.map_eq_some_iff.mp hs
  have hempty : buffer.drop buffer.length = [] := List.drop_length
  refine ⟨hempty, ?_⟩
  change more ++ buffer.drop buffer.length = rest ++ coming at hmore
  rw [hempty, List.append_nil] at hmore
  rw [← hname, ← hmore]
  exact hend

/-- The sink leaves a file, with everything written, for one that is empty. -/
theorem moveStream (h : Held r buffer base rest []) {path : String}
    (hne : path ≠ r.state.fileName) (hempty : r.state.disk.files path = some []) {s : Buffered}
    (hs : Buffered.spill buffer.length ⟨r.state, buffer⟩ = some s) :
    Held { r with state := s.state.moveStream path } s.buffer
      (Function.update base r.state.fileName (base r.state.fileName ++ rest)) [] [] := by
  obtain ⟨hbuffer, hend⟩ := h.flush hs
  obtain ⟨hspilled, hname, hfiles⟩ := h.spill hs
  have hbase : base path = [] := by rw [← h.other path hne, contents_eq hempty]
  refine ⟨h.filed.append_clean _ h.clean, untagged_nil, ⟨[], ⟨?_, ?_⟩, hbuffer⟩,
    fun path' hpath' => ?_⟩
  · change some _ = some (OFStream.mk path (Function.update base _ _ path ++ []).length)
    rw [Function.update_of_ne hne, hbase]
    rfl
  · change s.state.disk.files path = some (Function.update base _ _ path ++ [])
    rw [Function.update_of_ne hne, hbase, hfiles path hne, hempty]
    rfl
  · change s.state.contents path' = _
    by_cases hold : path' = r.state.fileName
    · subst hold
      rw [Function.update_self, ← hname, contents_eq hend.file, hname, List.append_nil]
    · rw [Function.update_of_ne hold]
      exact hspilled.other path' (hname ▸ hold)

/-- A file that holds no message is opened. -/
theorem openLogFile (h : Held r buffer base rest []) {path : String}
    (hne : path ≠ r.state.fileName) (hclean : ∀ cs ∈ r.state.disk.files path, Clean cs) :
    Held
      { r with state := { r.state with disk := (openLogFile path true r.state.disk).2 } }
      buffer (Function.update base path []) rest [] := by
  obtain ⟨more, hend, hmore⟩ := h.inUse
  have hbase : Clean (base path) := by
    rw [← h.other path hne, State.contents]
    cases hfile : r.state.disk.files path with
    | none => exact untagged_nil
    | some cs => exact hclean cs hfile
  refine ⟨h.filed.truncate hbase, h.clean, ⟨more, ⟨?_, ?_⟩, hmore⟩, fun path' hpath' => ?_⟩
  · change r.state.sink._outptr = some ⟨r.state.fileName,
      (Function.update base path [] r.state.fileName ++ more).length⟩
    rw [Function.update_of_ne hne.symm]
    exact hend.outptr
  · change Function.update r.state.disk.files path (some []) r.state.fileName =
      some (Function.update base path [] r.state.fileName ++ more)
    rw [Function.update_of_ne hne.symm, Function.update_of_ne hne.symm]
    exact hend.file
  · change (Function.update r.state.disk.files path (some []) path').getD [] = _
    by_cases heq : path' = path
    · subst heq
      simp
    · rw [Function.update_of_ne heq, Function.update_of_ne heq]
      exact h.other path' hpath'

/-- A call without a message returns. -/
theorem record (h : Held r buffer base rest []) {env : Env} {op : Op}
    (hop : op.accepted env r.state = none) : Held (op.record env r) buffer base rest [] := by
  obtain ⟨more, ⟨hout, hfile⟩, hmore⟩ := h.inUse
  cases op with
  | fileWrite message now =>
      have hmin : message.level_value < r.state.sink.min_loglevel_.value := by
        by_contra hmin
        simp [Op.accepted, hmin] at hop
      refine ⟨?_, h.clean, ⟨more, ⟨hout, hfile⟩, hmore⟩, h.other⟩
      simpa only [Op.record, if_pos hmin] using h.filed.skip
  | fileName => exact h
  | overrideLogDetails func => exact ⟨h.filed, h.clean, ⟨more, ⟨hout, hfile⟩, hmore⟩, h.other⟩
  | overrideLogHeader change => exact ⟨h.filed, h.clean, ⟨more, ⟨hout, hfile⟩, hmore⟩, h.other⟩
  | changeLogFile directory logger_id level now nowName nowHeader opens =>
      exact ⟨h.filed.use _, h.clean, ⟨more, ⟨hout, hfile⟩, hmore⟩, h.other⟩

/-- A call returns that has written a message, and all of it is in the file. -/
theorem record_accepted {text : String}
    (h : Held r [] base rest (ofMessage r.calls text)) {env : Env} {op : Op}
    (hop : op.accepted env r.state = some text) (hused : r.state.fileName ∈ r.used) :
    Held (op.record env r) []
      (Function.update base r.state.fileName
        (base r.state.fileName ++ (rest ++ ofMessage r.calls text))) [] [] := by
  obtain ⟨more, ⟨hout, hfile⟩, hmore⟩ := h.inUse
  rw [List.append_nil] at hmore
  cases op with
  | fileWrite message now =>
      have hmin : ¬ message.level_value < r.state.sink.min_loglevel_.value := by
        intro hmin
        simp [Op.accepted, hmin] at hop
      have htext : (message.toString env r.state.sink._log_details_func).1 = text := by
        simpa [Op.accepted, hmin] using hop
      have hne : text ≠ "" := htext ▸ LogMessage.formatted_ne_empty env _
      have hfiled := (h.filed.append_clean r.state.fileName h.clean).append_message hused hne
      rw [Function.update_self, Function.update_idem, List.append_assoc] at hfiled
      refine ⟨?_, untagged_nil, ⟨[], ⟨?_, ?_⟩, rfl⟩, fun path hpath => ?_⟩
      · simpa only [Op.record, if_neg hmin, htext] using hfiled
      · change r.state.sink._outptr = some ⟨r.state.fileName, (Function.update base _ _
          r.state.fileName ++ []).length⟩
        rw [Function.update_self, List.append_nil, ← hmore]
        exact hout
      · change r.state.disk.files r.state.fileName = some (Function.update base _ _
          r.state.fileName ++ [])
        rw [Function.update_self, List.append_nil, ← hmore]
        exact hfile
      · have hpath : path ≠ r.state.fileName := hpath
        rw [Function.update_of_ne hpath]
        exact h.other path hpath
  | _ => simp [Op.accepted] at hop

end Held

/-! ## The call in progress -/

/-- A text of the sink's own goes into the buffer. -/
def Stmt.Own (st : Stmt) : Prop := ∃ text, st = .insert (own text)

/-- Statements that write no message, and go on only with a file that is empty. -/
def Quietly (σ : State) : List Stmt → Prop
  | [] => True
  | .insert text :: sts => Clean text ∧ Quietly σ sts
  | .flush :: sts => Quietly σ sts
  | .moveStream path :: sts =>
      path ≠ σ.fileName ∧ σ.disk.files path = some [] ∧ ∀ st ∈ sts, st.Own

/-- The call in progress goes on with another file. -/
def BufferedRun.Changing (env : Env) (b : BufferedRun) : Prop :=
  ∃ op, b.doing = .call op ∧ (op.newLog env b.run.state.sink._log_prefix_backup).isSome

/-- How far the call in progress has come, by what it has put into the buffer of its message. -/
inductive Stage (env : Env) (b : BufferedRun) : List Cell → Prop
  | quiet (hop : ∀ op, b.doing = .call op → op.accepted env b.run.state = none)
      (hmove : ∀ path, .moveStream path ∈ b.todo → b.Changing env)
      (htodo : Quietly b.run.state b.todo) : Stage env b []
  | ahead {op : Op} {text : String} {sts : List Stmt} (hdoing : b.doing = .call op)
      (hop : op.accepted env b.run.state = some text) (hsts : ∀ st ∈ sts, st.Own)
      (htodo : b.todo = sts ++ [.insert (ofMessage b.run.calls text), .flush]) : Stage env b []
  | written {op : Op} {text : String} (hdoing : b.doing = .call op)
      (hop : op.accepted env b.run.state = some text) (htodo : b.todo = [.flush]) :
      Stage env b (ofMessage b.run.calls text)
  | flushed {op : Op} {text : String} (hdoing : b.doing = .call op)
      (hop : op.accepted env b.run.state = some text) (htodo : b.todo = [])
      (hbuffer : b.buffer = []) : Stage env b (ofMessage b.run.calls text)

/-- No message is lost by the death of the process. -/
structure Durable (env : Env) (b : BufferedRun) : Prop where
  held : ∃ base rest coming, Held b.run b.buffer base rest coming ∧ Stage env b coming
  counted : b.run.state.fileName ∈ b.run.used ∨ b.Changing env

theorem stage_nothing {env : Env} {b : BufferedRun} (hdoing : b.doing = .nothing)
    (htodo : b.todo = []) : Stage env b [] := by
  refine .quiet (fun op hop => ?_) (fun path hpath => ?_) ?_
  · simp [hdoing] at hop
  · simp [htodo] at hpath
  · simp [htodo, Quietly]

theorem newLog_of_accepted {env : Env} {σ : State} {op : Op} {text : String}
    (h : op.accepted env σ = some text) (verified : String) : op.newLog env verified = none := by
  cases op <;> first | rfl | simp [Op.accepted] at h

theorem sink_opened (env : Env) (σ : State) (op : Op) : (op.opened env σ).sink = σ.sink := by
  unfold Op.opened
  split <;> rfl

theorem accepted_congr {env : Env} {σ σ' : State} (op : Op)
    (hfunc : σ'.sink._log_details_func = σ.sink._log_details_func)
    (hlevel : σ'.sink.min_loglevel_ = σ.sink.min_loglevel_) :
    op.accepted env σ' = op.accepted env σ := by
  cases op <;> simp [Op.accepted, hfunc, hlevel]

theorem quietly_own {σ : State} {sts : List Stmt} (h : ∀ st ∈ sts, st.Own) : Quietly σ sts := by
  induction sts with
  | nil => trivial
  | cons st sts ih =>
      obtain ⟨text, rfl⟩ := h st List.mem_cons_self
      exact ⟨clean_own text, ih fun st hst => h st (List.mem_cons_of_mem _ hst)⟩

theorem newLog_of_moveStream {env : Env} {calls : ℕ} {σ : State} {op : Op} {path : String}
    (h : .moveStream path ∈ op.stmts env calls σ) :
    op.newLog env σ.sink._log_prefix_backup = some path := by
  cases op with
  | fileWrite message now =>
      simp only [Op.stmts, List.mem_append] at h
      rcases h with h | h <;> split at h <;> simp at h
  | changeLogFile directory logger_id level now nowName nowHeader opens =>
      cases opens with
      | false => simp [Op.stmts] at h
      | true =>
          obtain rfl : path = σ.prospect_log env directory logger_id level nowName := by
            simpa [Op.stmts] using h
          rfl
  | _ => simp [Op.stmts] at h

/-- The statements of a call that writes no message. -/
theorem quietly_stmts {env : Env} {b : BufferedRun} {op : Op} (hfresh : b.Fresh env (.call op))
    {cs : List Cell} (hend : AtEnd b.run.state cs) (hop : op.accepted env b.run.state = none) :
    Quietly (op.opened env b.run.state) (op.stmts env b.run.calls b.run.state) := by
  cases op with
  | fileWrite message now =>
      have hmin : message.level_value < b.run.state.sink.min_loglevel_.value := by
        by_contra hmin
        simp [Op.accepted, hmin] at hop
      cases hfirst : b.run.state.sink._firstEntry <;> simp [Op.stmts, hmin, hfirst, Quietly]
  | changeLogFile directory logger_id level now nowName nowHeader opens =>
      cases opens with
      | false => simp [Op.stmts, Quietly]
      | true =>
          obtain ⟨hne, -⟩ := hfresh _ rfl
          have hne := hne _ hend.outptr
          simpa [Op.stmts, Quietly, Stmt.Own, Op.opened, Op.newLog, openLogFile,
            State.prospect_log, State.fileName] using hne
  | _ => trivial

/-- The statements of a call that writes one. -/
theorem stmts_accepted {env : Env} {calls : ℕ} {σ : State} {op : Op} {text : String}
    (hop : op.accepted env σ = some text) :
    ∃ sts : List Stmt, (∀ st ∈ sts, st.Own) ∧
      op.stmts env calls σ = sts ++ [.insert (ofMessage calls text), .flush] := by
  cases op with
  | fileWrite message now =>
      have hmin : ¬ message.level_value < σ.sink.min_loglevel_.value := by
        intro hmin
        simp [Op.accepted, hmin] at hop
      have htext : (message.toString env σ.sink._log_details_func).1 = text := by
        simpa [Op.accepted, hmin] using hop
      refine ⟨_, fun st hst => ?_, by rw [Op.stmts, if_neg hmin, htext]⟩
      split at hst
      · exact ⟨_, List.mem_singleton.mp hst⟩
      · simp at hst
  | _ => simp [Op.accepted] at hop

/-! ## One step -/

/-- Between two calls no message is coming. -/
theorem Durable.idle {env : Env} {b : BufferedRun} (h : Durable env b)
    (hnothing : b.doing = .nothing) :
    (∃ base rest, Held b.run b.buffer base rest []) ∧ b.run.state.fileName ∈ b.run.used := by
  obtain ⟨⟨base, rest, coming, hheld, hstage⟩, hcounted⟩ := h
  refine ⟨⟨base, rest, ?_⟩, ?_⟩
  · cases hstage with
    | quiet => exact hheld
    | ahead => exact hheld
    | written hdoing | flushed hdoing => simp [hnothing] at hdoing
  · rcases hcounted with hused | ⟨op, hdoing, -⟩
    · exact hused
    · simp [hnothing] at hdoing

theorem Durable.call {env : Env} {b : BufferedRun} {op : Op} (h : Durable env b)
    (hnothing : b.doing = .nothing) (hfresh : b.Fresh env (.call op)) :
    Durable env
      { b with
        run := { b.run with state := op.opened env b.run.state }
        doing := .call op
        todo := op.stmts env b.run.calls b.run.state } := by
  obtain ⟨⟨base, rest, hheld⟩, hused⟩ := h.idle hnothing
  obtain ⟨more, hend, -⟩ := hheld.inUse
  have hsink := sink_opened env b.run.state op
  have haccepted : op.accepted env (op.opened env b.run.state) = op.accepted env b.run.state :=
    accepted_congr op (by rw [hsink]) (by rw [hsink])
  refine ⟨?_, .inl ?_⟩
  · have hopened : ∃ base', Held { b.run with state := op.opened env b.run.state } b.buffer base'
        rest [] := by
      unfold Op.opened
      cases hnew : op.newLog env b.run.state.sink._log_prefix_backup with
      | none => exact ⟨base, hheld⟩
      | some path =>
          obtain ⟨hne, hclean⟩ := hfresh path hnew
          exact ⟨_, hheld.openLogFile (hne _ hend.outptr) hclean⟩
    obtain ⟨base', hheld'⟩ := hopened
    refine ⟨base', rest, [], hheld', ?_⟩
    cases hop : op.accepted env b.run.state with
    | none =>
        refine .quiet (fun op' hop' => ?_) (fun path hpath => ?_) (quietly_stmts hfresh hend hop)
        · obtain rfl : op = op' := Doing.call.inj hop'
          exact haccepted.trans hop
        · refine ⟨op, rfl, ?_⟩
          change (op.newLog env (op.opened env b.run.state).sink._log_prefix_backup).isSome
          rw [hsink, newLog_of_moveStream hpath]
          rfl
    | some text =>
        obtain ⟨sts, hsts, htodo⟩ := stmts_accepted hop
        exact .ahead rfl (haccepted.trans hop) hsts htodo
  · change (op.opened env b.run.state).fileName ∈ b.run.used
    rwa [State.fileName, hsink]

theorem Durable.destroy {env : Env} {b : BufferedRun} (h : Durable env b)
    (hnothing : b.doing = .nothing) (now : Int) :
    Durable env { b with doing := .destroy now, todo := destroyStmts env now } := by
  obtain ⟨⟨base, rest, hheld⟩, hused⟩ := h.idle hnothing
  refine ⟨⟨base, rest, [], hheld, .quiet (fun op hop => by simp at hop) (fun path hpath => ?_) ?_⟩,
    .inl hused⟩
  · simp [destroyStmts] at hpath
  · simp [destroyStmts, Quietly]

/-- The stream writes to the file in use, and not to one that is to come. -/
theorem Quietly.congr {σ σ' : State} {sts : List Stmt} (h : Quietly σ sts)
    (hname : σ'.fileName = σ.fileName)
    (hfiles : ∀ path ≠ σ.fileName, σ'.disk.files path = σ.disk.files path) : Quietly σ' sts := by
  induction sts with
  | nil => trivial
  | cons st sts ih =>
      cases st with
      | insert text => exact ⟨h.1, ih h.2⟩
      | flush => exact ih h
      | moveStream path => exact ⟨hname ▸ h.1, (hfiles path h.1).trans h.2.1, h.2.2⟩

theorem Stage.spill {env : Env} {b : BufferedRun} {coming : List Cell} (h : Stage env b coming)
    {s : Buffered} {n : ℕ} (hs : b.stream.spill n = some s)
    (hname : s.state.fileName = b.run.state.fileName)
    (hfiles : ∀ path ≠ b.run.state.fileName,
      s.state.disk.files path = b.run.state.disk.files path) :
    Stage env (b.withStream s) coming := by
  obtain ⟨σ, hσ, rfl⟩ := Option.map_eq_some_iff.mp hs
  have hsink := sink_insert hσ
  have haccepted : ∀ op : Op, op.accepted env σ = op.accepted env b.run.state :=
    fun op => accepted_congr op (by rw [hsink]; rfl) (by rw [hsink]; rfl)
  cases h with
  | quiet hop hmove htodo =>
      refine .quiet (fun op hdoing => (haccepted op).trans (hop op hdoing)) (fun path hpath => ?_)
        (htodo.congr hname hfiles)
      obtain ⟨op, hdoing, hnew⟩ := hmove path hpath
      refine ⟨op, hdoing, ?_⟩
      change (op.newLog env σ.sink._log_prefix_backup).isSome
      rw [hsink]
      exact hnew
  | ahead hdoing hop hsts htodo => exact .ahead hdoing ((haccepted _).trans hop) hsts htodo
  | written hdoing hop htodo => exact .written hdoing ((haccepted _).trans hop) htodo
  | flushed hdoing hop htodo hbuffer =>
      refine .flushed hdoing ((haccepted _).trans hop) htodo ?_
      change b.buffer.drop n = []
      rw [hbuffer, List.drop_nil]

theorem Durable.spill {env : Env} {b : BufferedRun} {n : ℕ} {s : Buffered} (h : Durable env b)
    (hs : b.stream.spill n = some s) : Durable env (b.withStream s) := by
  obtain ⟨⟨base, rest, coming, hheld, hstage⟩, hcounted⟩ := h
  obtain ⟨hheld', hname, hfiles⟩ := hheld.spill hs
  refine ⟨⟨base, rest, coming, hheld', hstage.spill hs hname hfiles⟩, ?_⟩
  rcases hcounted with hused | ⟨op, hdoing, hnew⟩
  · exact .inl (hname ▸ hused)
  · refine .inr ⟨op, hdoing, ?_⟩
    obtain ⟨σ, hσ, rfl⟩ := Option.map_eq_some_iff.mp hs
    change (op.newLog env σ.sink._log_prefix_backup).isSome
    rw [sink_insert hσ]
    exact hnew

/-- A text of the sink's own goes into the buffer. -/
theorem Held.insert_clean {r : Run} {buffer rest : List Cell} {base : String → List Cell}
    (h : Held r buffer base rest []) {text : List Cell} (htext : Clean text) :
    Held r (buffer ++ text) base (rest ++ text) [] :=
  h.insert (untagged_append.mpr ⟨h.clean, htext⟩) (List.append_nil _).symm

/-- The buffer is written, and the statement that has it written is done. -/
theorem Durable.flush {env : Env} {b : BufferedRun} {sts : List Stmt} (h : Durable env b)
    (htodo : b.todo = .flush :: sts) (hbuffer : b.buffer = []) :
    Durable env { b with todo := sts } := by
  obtain ⟨⟨base, rest, coming, hheld, hstage⟩, hcounted⟩ := h
  refine ⟨⟨base, rest, coming, hheld, ?_⟩, hcounted⟩
  cases hstage with
  | quiet hop hmove hquiet =>
      rw [htodo] at hmove hquiet
      exact .quiet hop (fun path hpath => hmove path (List.mem_cons_of_mem _ hpath)) hquiet
  | @ahead op text front hdoing hop hsts htodo' =>
      rw [htodo] at htodo'
      cases front with
      | nil => simp at htodo'
      | cons st front =>
          obtain ⟨own, rfl⟩ := hsts st List.mem_cons_self
          simp at htodo'
  | written hdoing hop htodo' =>
      obtain rfl : sts = [] := by simpa [htodo] using htodo'
      exact .flushed hdoing hop rfl hbuffer
  | flushed hdoing hop htodo' hbuffer' => simp [htodo] at htodo'

/-- A text goes into the buffer. -/
theorem Durable.insert {env : Env} {b : BufferedRun} {text : List Cell} {sts : List Stmt}
    (h : Durable env b) (htodo : b.todo = .insert text :: sts) :
    Durable env { b with buffer := b.buffer ++ text, todo := sts } := by
  obtain ⟨⟨base, rest, coming, hheld, hstage⟩, hcounted⟩ := h
  cases hstage with
  | quiet hop hmove hquiet =>
      rw [htodo] at hmove hquiet
      exact ⟨⟨base, rest ++ text, [], hheld.insert_clean hquiet.1, .quiet hop
        (fun path hpath => hmove path (List.mem_cons_of_mem _ hpath)) hquiet.2⟩, hcounted⟩
  | @ahead op message front hdoing hop hsts htodo' =>
      rw [htodo] at htodo'
      cases front with
      | nil =>
          obtain ⟨rfl, rfl⟩ : text = ofMessage b.run.calls message ∧ sts = [.flush] := by
            simpa using htodo'
          exact ⟨⟨base, rest, _, hheld.insert hheld.clean rfl, .written hdoing hop rfl⟩, hcounted⟩
      | cons st front =>
          obtain ⟨line, rfl⟩ := hsts st List.mem_cons_self
          obtain ⟨rfl, rfl⟩ : text = own line ∧
              sts = front ++ [.insert (ofMessage b.run.calls message), .flush] := by
            simpa using htodo'
          exact ⟨⟨base, rest ++ own line, [], hheld.insert_clean (clean_own line),
            .ahead hdoing hop (fun st hst => hsts st (List.mem_cons_of_mem _ hst)) rfl⟩, hcounted⟩
  | written hdoing hop htodo' => simp [htodo] at htodo'
  | flushed hdoing hop htodo' hbuffer => simp [htodo] at htodo'

/-- The sink goes on with another file. -/
theorem Durable.moveStream {env : Env} {b : BufferedRun} {path : String} {sts : List Stmt}
    {s : Buffered} (h : Durable env b) (htodo : b.todo = .moveStream path :: sts)
    (hs : b.stream.spill b.buffer.length = some s) :
    Durable env { b.withStream { s with state := s.state.moveStream path } with todo := sts } := by
  obtain ⟨⟨base, rest, coming, hheld, hstage⟩, hcounted⟩ := h
  cases hstage with
  | quiet hop hmove hquiet =>
      rw [htodo] at hmove hquiet
      obtain ⟨hne, hempty, hsts⟩ := hquiet
      obtain ⟨op, hdoing, hnew⟩ := hmove path List.mem_cons_self
      obtain ⟨σ, hσ, rfl⟩ := Option.map_eq_some_iff.mp hs
      have hsink := sink_insert hσ
      have hchanging : BufferedRun.Changing env
          { b.withStream ⟨σ.moveStream path, b.buffer.drop b.buffer.length⟩ with todo := sts } := by
        refine ⟨op, hdoing, ?_⟩
        change (op.newLog env σ.sink._log_prefix_backup).isSome
        rw [hsink]
        exact hnew
      refine ⟨⟨_, [], [], hheld.moveStream hne hempty hs, .quiet (fun op' hdoing' => ?_)
        (fun _ _ => hchanging) (quietly_own hsts)⟩, .inr hchanging⟩
      change op'.accepted env (σ.moveStream path) = none
      rw [← hop op' hdoing']
      have hfunc : σ.sink._log_details_func = b.run.state.sink._log_details_func := by
        rw [hsink]
        rfl
      have hlevel : σ.sink.min_loglevel_ = b.run.state.sink.min_loglevel_ := by
        rw [hsink]
        rfl
      exact accepted_congr op' hfunc hlevel
  | @ahead op message front hdoing hop hsts htodo' =>
      rw [htodo] at htodo'
      cases front with
      | nil => simp at htodo'
      | cons st front =>
          obtain ⟨own, rfl⟩ := hsts st List.mem_cons_self
          simp at htodo'
  | written hdoing hop htodo' => simp [htodo] at htodo'
  | flushed hdoing hop htodo' hbuffer => simp [htodo] at htodo'

/-- A call returns. -/
theorem Durable.ret {env : Env} {b : BufferedRun} {op : Op} (h : Durable env b)
    (hcall : b.doing = .call op) (htodo : b.todo = []) :
    Durable env { b with run := op.record env b.run, doing := .nothing } := by
  obtain ⟨⟨base, rest, coming, hheld, hstage⟩, hcounted⟩ := h
  have hused : (op.record env b.run).state.fileName ∈ (op.record env b.run).used := by
    rcases hcounted with hused | ⟨op', hdoing, hnew⟩
    · cases op <;> simp_all [Op.record, State.fileName, State.overrideLogDetails,
        State.overrideLogHeader]
    · obtain rfl : op = op' := Doing.call.inj (hcall.symm.trans hdoing)
      cases op with
      | changeLogFile => simp [Op.record]
      | _ => simp [Op.newLog] at hnew
  refine ⟨?_, .inl hused⟩
  cases hstage with
  | quiet hop =>
      exact ⟨base, rest, [], hheld.record (hop op hcall), stage_nothing rfl htodo⟩
  | ahead hdoing hop hsts htodo' => simp [htodo] at htodo'
  | written hdoing hop htodo' => simp [htodo] at htodo'
  | @flushed op' text hdoing hop htodo' hbuffer =>
      obtain rfl : op = op' := Doing.call.inj (hcall.symm.trans hdoing)
      have hcurrent : b.run.state.fileName ∈ b.run.used := by
        rcases hcounted with hcurrent | ⟨op', hdoing', hnew⟩
        · exact hcurrent
        · obtain rfl : op = op' := Doing.call.inj (hdoing.symm.trans hdoing')
          simp [newLog_of_accepted hop] at hnew
      rw [hbuffer] at hheld
      obtain ⟨base', hheld'⟩ :
          ∃ base', Held (op.record env b.run) b.buffer base' [] [] := by
        rw [hbuffer]
        exact ⟨_, hheld.record_accepted hop hcurrent⟩
      exact ⟨base', [], [], hheld', stage_nothing rfl htodo⟩

/-- The stream is closed, and has written all it held. -/
theorem Durable.destroyed {env : Env} {b : BufferedRun} {now : Int} (h : Durable env b)
    (hdestroy : b.doing = .destroy now) (htodo : b.todo = []) :
    Durable env { b with doing := .destroyed } := by
  obtain ⟨⟨base, rest, coming, hheld, hstage⟩, hcounted⟩ := h
  refine ⟨⟨base, rest, coming, hheld, ?_⟩, ?_⟩
  · cases hstage with
    | quiet hop hmove hquiet =>
        refine .quiet (fun op hop => by simp at hop) (fun path hpath => ?_) hquiet
        simp [htodo] at hpath
    | ahead hdoing | written hdoing | flushed hdoing => simp [hdestroy] at hdoing
  · rcases hcounted with hused | ⟨op, hdoing, -⟩
    · exact .inl hused
    · simp [hdestroy] at hdoing

theorem Durable.step {env : Env} {b b' : BufferedRun} {a : BufferedAction} (h : Durable env b)
    (hfresh : b.Fresh env a) (hstep : b.step env a = some b') : Durable env b' := by
  cases a with
  | call op =>
      simp only [BufferedRun.step] at hstep
      split at hstep
      · next hnothing =>
          obtain rfl := Option.some.inj hstep
          exact h.call hnothing hfresh
      · cases hstep
  | destroy now =>
      simp only [BufferedRun.step] at hstep
      split at hstep
      · next hnothing =>
          obtain rfl := Option.some.inj hstep
          exact h.destroy hnothing now
      · cases hstep
  | stmt =>
      simp only [BufferedRun.step] at hstep
      split at hstep
      · cases hstep
      · next st sts htodo =>
          obtain ⟨s, hs, rfl⟩ := Option.map_eq_some_iff.mp hstep
          cases st with
          | insert text =>
              obtain ⟨out, -, rfl⟩ := Option.map_eq_some_iff.mp hs
              exact h.insert htodo
          | flush =>
              refine (h.spill hs).flush htodo ?_
              obtain ⟨σ, -, rfl⟩ := Option.map_eq_some_iff.mp hs
              exact List.drop_length
          | moveStream path =>
              obtain ⟨s', hs', rfl⟩ := Option.map_eq_some_iff.mp hs
              exact h.moveStream htodo hs'
  | ret =>
      simp only [BufferedRun.step] at hstep
      split at hstep
      · next hcall htodo =>
          obtain rfl := Option.some.inj hstep
          exact h.ret hcall htodo
      · next now hdestroy htodo =>
          obtain ⟨s, hs, rfl⟩ := Option.map_eq_some_iff.mp hstep
          exact (h.spill hs).destroyed hdestroy htodo
      · cases hstep
  | spill n =>
      simp only [BufferedRun.step] at hstep
      split at hstep
      · cases hstep
      · obtain ⟨s, hs, rfl⟩ := Option.map_eq_some_iff.mp hstep
        exact h.spill hs

/-! ## The files -/

/-- What is coming is the message of the call in progress. -/
theorem Stage.coming_eq {env : Env} {b : BufferedRun} {coming : List Cell}
    (h : Stage env b coming) :
    coming = [] ∨ ∃ op text, b.doing = .call op ∧ op.accepted env b.run.state = some text ∧
      coming = ofMessage b.run.calls text := by
  cases h with
  | quiet | ahead => exact .inl rfl
  | written hdoing hop | flushed hdoing hop => exact .inr ⟨_, _, hdoing, hop, rfl⟩

/-- A file is what is known of it, but for the file in use, which may hold more. -/
theorem Held.file_eq {r : Run} {buffer rest coming : List Cell} {base : String → List Cell}
    (h : Held r buffer base rest coming) :
    ∃ more, more ++ buffer = rest ++ coming ∧
      r.state.disk.files r.state.fileName = some (base r.state.fileName ++ more) ∧
      ∀ path cs, r.state.disk.files path = some cs →
        cs = base path ∨ path = r.state.fileName ∧ cs = base path ++ more := by
  obtain ⟨more, hend, hmore⟩ := h.inUse
  refine ⟨more, hmore, hend.file, fun path cs hcs => ?_⟩
  by_cases hpath : path = r.state.fileName
  · subst hpath
    exact .inr ⟨rfl, Option.some.inj (hcs.symm.trans hend.file)⟩
  · exact .inl (by rw [← h.other path hpath, contents_eq hcs])

theorem Held.foundIn {r : Run} {buffer rest coming : List Cell} {base : String → List Cell}
    (h : Held r buffer base rest coming) (hcoming : ∀ c ∈ coming, c.origin = some r.calls) {i : ℕ}
    {text : String} (hi : (i, text) ∈ r.accepted) :
    ∃ path ∈ r.used, FoundIn r.state.disk.files i text path := by
  obtain ⟨more, hmore, hfile, hfiles⟩ := h.file_eq
  obtain ⟨path, hused, honce, habsent⟩ := h.filed.found i text hi
  have hmoreAbsent : Absent Cell.origin i more := by
    intro c hc hci
    have hmem : c ∈ rest ++ coming := hmore ▸ List.mem_append_left _ hc
    rcases List.mem_append.mp hmem with hrest | hcome
    · simp [h.clean c hrest] at hci
    · have hlt := h.filed.lt_calls i text hi
      rw [hcoming c hcome] at hci
      exact hlt.ne (Option.some.inj hci).symm
  refine ⟨path, hused, ?_, fun path' hpath' cs hcs => ?_⟩
  · obtain ⟨cs, hcs⟩ : ∃ cs, r.state.disk.files path = some cs := by
      by_cases hpath : path = r.state.fileName
      · exact ⟨_, hpath ▸ hfile⟩
      · obtain ⟨c, hc, -⟩ := exists_mem_ofMessage (h.filed.nonempty i text hi) i
        have hmem := honce.mem hc
        rw [← h.other path hpath, State.contents] at hmem
        exact Option.ne_none_iff_exists'.mp fun hnone => by simp [hnone] at hmem
    refine ⟨cs, hcs, ?_⟩
    rcases hfiles path cs hcs with rfl | ⟨-, rfl⟩
    · exact honce
    · exact honce.append hmoreAbsent
  · rcases hfiles path' cs hcs with rfl | ⟨-, rfl⟩
    · exact habsent path' hpath'
    · exact absent_append.mpr ⟨habsent path' hpath', hmoreAbsent⟩

theorem Durable.afterCrash {env : Env} {b : BufferedRun} (h : Durable env b) :
    AfterCrash env b := by
  obtain ⟨⟨base, rest, coming, hheld, hstage⟩, -⟩ := h
  have hcoming := hstage.coming_eq
  obtain ⟨more, hmore, -, hfiles⟩ := hheld.file_eq
  refine ⟨fun i text hi => hheld.foundIn (fun c hc => ?_) hi, fun path cs hcs => ?_⟩
  · rcases hcoming with rfl | ⟨op, message, -, -, rfl⟩
    · simp at hc
    · exact origin_of_mem_ofMessage hc
  · have hwhole : ∀ tail, Clean tail → TagsOrdered Cell.origin (base path ++ tail) ∧
        ∀ c ∈ base path ++ tail, ∀ i, c.origin = some i →
          ∃ text, (i, text) ∈ b.run.accepted := by
      intro tail htail
      refine ⟨(hheld.filed.ordered path).append_untagged htail, fun c hc i hi => ?_⟩
      rcases List.mem_append.mp hc with hbase | hmem
      · exact hheld.filed.mem_accepted path c hbase i hi
      · simp [htail c hmem] at hi
    rcases hfiles path cs hcs with rfl | ⟨hpath, rfl⟩
    · obtain ⟨hordered, hmem⟩ := hwhole [] untagged_nil
      exact ⟨base path ++ [], [], by simp, hordered, hmem, by simp⟩
    · rcases List.append_eq_append_iff.mp hmore with ⟨back, hrest, -⟩ | ⟨part, hpart, hcome⟩
      · -- not more than text of the sink's own is there
        have hclean : Clean more := (untagged_append.mp (hrest ▸ hheld.clean)).1
        obtain ⟨hordered, hmem⟩ := hwhole more hclean
        exact ⟨base path ++ more, [], by simp, hordered, hmem, by simp⟩
      · obtain ⟨hordered, hmem⟩ := hwhole rest hheld.clean
        refine ⟨base path ++ rest, part, by rw [hpart, List.append_assoc], hordered, hmem,
          fun hne => ⟨hpath, ?_⟩⟩
        rcases hcoming with rfl | ⟨op, text, hdoing, hop, rfl⟩
        · exact absurd (List.append_eq_nil_iff.mp hcome.symm).1 hne
        · exact ⟨op, text, hdoing, hop, b.buffer, hcome.symm⟩

/-- A constructed sink with an open stream has nothing to lose. -/
theorem durable_start {env : Env} {logPrefix log_directory logger_id : String} {level : LEVELS}
    {now : Int} {opens opensFallback : Bool} {bytes : String → Option (List Char)}
    {links : String → Option String} {σ : State}
    (hσ : create env logPrefix log_directory level logger_id now opens opensFallback
      (diskOf bytes links) = some σ) (hopen : σ.sink._outptr.isSome) :
    Durable env ⟨start σ, [], .nothing, []⟩ := by
  obtain ⟨houtptr, hfiles⟩ := create_files hσ hopen
  have hfile : σ.disk.files σ.fileName = some [] := by simp [hfiles]
  have hclean : ∀ path, Clean (σ.contents path) := by
    intro path
    by_cases hpath : path = σ.fileName
    · subst hpath
      rw [contents_eq hfile]
      exact untagged_nil
    · rw [State.contents, hfiles, Function.update_of_ne hpath]
      cases hbytes : bytes path <;> simp [diskOf, hbytes]
  have hheld : Held (start σ) [] σ.contents [] [] := by
    refine ⟨Filed.start_clean hclean, untagged_nil, ⟨[], ⟨?_, ?_⟩, rfl⟩, fun _ _ => rfl⟩
    · change σ.sink._outptr = some ⟨σ.fileName, (σ.contents σ.fileName ++ []).length⟩
      rw [houtptr, contents_eq hfile]
      rfl
    · change σ.disk.files σ.fileName = some (σ.contents σ.fileName ++ [])
      rw [contents_eq hfile, hfile]
      rfl
  exact ⟨⟨_, [], [], hheld, stage_nothing rfl rfl⟩, .inl (by simp [start])⟩

/-- Whenever the process dies, and whatever the streams have written by then, each message
that `fileWrite` has returned from is found whole, once and in order in one file the sink has
used. Of other messages there is at most a first part of the one that is being written, and it
is at the end of the file in use. -/
theorem survives_crash {env : Env} {logPrefix log_directory logger_id : String} {level : LEVELS}
    {now : Int} {opens opensFallback : Bool} {bytes : String → Option (List Char)}
    {links : String → Option String} {σ : State}
    (hσ : create env logPrefix log_directory level logger_id now opens opensFallback
      (diskOf bytes links) = some σ) (hopen : σ.sink._outptr.isSome) {b : BufferedRun}
    (h : (buffered env σ).ReachableBy (BufferedRun.Fresh env) b) : AfterCrash env b := by
  refine Durable.afterCrash (h.invariant (fun b hb => ?_)
    fun b a b' _ hfresh hb hstep => hb.step hfresh hstep)
  obtain rfl : b = _ := hb
  exact durable_start hσ hopen

/-- A change of file, a message, and a first part of a second message. -/
def tornRunAtEpoch : List BufferedAction :=
  [.call (.changeLogFile "/var/log/" "" G3LOG_INFO 0 0 0 true), .stmt, .stmt, .stmt, .stmt, .ret,
    .call (.fileWrite greeting 0), .stmt, .spill 150, .stmt, .stmt, .ret,
    .call (.fileWrite greeting 0), .stmt, .spill 10]

theorem survives_crash_epoch :
    ∃ b, b.run.accepted.length = 1 ∧ b.todo ≠ [] ∧ AfterCrash epoch b := by
  have hrun : ((buffered epoch sinkAtEpoch).runBy (fun b a => decide (b.Fresh epoch a))
      ⟨start sinkAtEpoch, [], .nothing, []⟩ tornRunAtEpoch).any
      (fun b => b.run.accepted.length == 1 && !b.todo.isEmpty) = true := by decide +kernel
  obtain ⟨b, hb, hstate⟩ := System.exists_reachableBy rfl hrun
  have hstate : b.run.accepted.length = 1 ∧ b.todo ≠ [] := by simpa using hstate
  exact ⟨b, hstate.1, hstate.2, survives_crash createdAtEpoch_eq sinkAtEpoch_isOpen
    (hb.mono fun _ _ => of_decide_eq_true)⟩

end G3log.FileSink
