import G3log.FileParts

/-!
# The headers of log files

`fileWrite` puts a header before the first entry of a sink, and `changeLogFile` writes one
whenever it has opened a new file; but it writes it while the stream is still that of the old
file. So a file gets its header if the first entry of the sink goes there, and a file that
the sink leaves gets one, perhaps its second. `headed_iff` says for which runs every file
that received a message has just the one header it should have.

## Main definitions

* `FileSink.Headed` -- one header, and before the first message.
* `FileSink.HeaderInTime` -- no file is changed once the first entry was written.
-/

namespace G3log.FileSink

def Part.isHeader : Part → Bool
  | .header _ => true
  | _ => false

def Part.isMessage : Part → Bool
  | .message _ _ => true
  | _ => false

/-- If there is a message among the parts of a file, there is one header, before all of them. -/
def Headed (parts : List Part) : Prop :=
  (∃ part ∈ parts, part.isMessage = true) →
    ∃ front text back, parts = front ++ .header text :: back ∧
      (∀ part ∈ front, part.isMessage = false) ∧
      ∀ part ∈ front ++ back, part.isHeader = false

/-- The call is a `fileWrite` of a message that the sink does not leave out. -/
def Op.logs (level : LEVELS) : Op → Bool
  | .fileWrite message _ => !decide (message.level_value < level.value)
  | _ => false

def Op.isFileWrite : Op → Bool
  | .fileWrite _ _ => true
  | _ => false

/-- The call is a `changeLogFile` that opens its file. -/
def Op.changes : Op → Bool
  | .changeLogFile _ _ _ _ _ _ opens => opens
  | _ => false

/-- If a message is written at all, no file is changed after the first call of `fileWrite`. -/
def HeaderInTime (level : LEVELS) (ops : List Op) : Prop :=
  (∃ op ∈ ops, op.logs level = true) →
    ∀ op ∈ ops.dropWhile (fun op => !op.isFileWrite), op.changes = false

/-! ## Lists of parts -/

theorem headed_of_no_message {parts : List Part}
    (h : ∀ part ∈ parts, part.isMessage = false) : Headed parts := by
  intro hmessage
  obtain ⟨part, hpart, hisMessage⟩ := hmessage
  rw [h part hpart] at hisMessage
  cases hisMessage

theorem Headed.countP {parts : List Part} (h : Headed parts)
    (hmessage : ∃ part ∈ parts, part.isMessage = true) :
    parts.countP Part.isHeader = 1 := by
  obtain ⟨front, text, back, rfl, -, hunique⟩ := h hmessage
  have hfront : front.countP Part.isHeader = 0 := by
    rw [List.countP_eq_zero]
    intro part hpart
    simp [hunique part (List.mem_append_left _ hpart)]
  have hback : back.countP Part.isHeader = 0 := by
    rw [List.countP_eq_zero]
    intro part hpart
    simp [hunique part (List.mem_append_right _ hpart)]
  rw [List.countP_append, List.countP_cons, hfront, hback]
  rfl

/-- What is wrong in the parts so far stays wrong. -/
theorem Headed.of_append {parts rest : List Part} (h : Headed (parts ++ rest)) :
    Headed parts := by
  intro hmessage
  obtain ⟨part, hpart, hisMessage⟩ := hmessage
  obtain ⟨front, text, back, heq, hfront, hunique⟩ :=
    h ⟨part, List.mem_append_left _ hpart, hisMessage⟩
  have houtside : part ∉ front := by
    intro hmem
    rw [hfront part hmem] at hisMessage
    cases hisMessage
  rcases List.append_eq_append_iff.mp heq with ⟨c, hc, -⟩ | ⟨c, hc, hrest⟩
  · exact absurd (hc ▸ List.mem_append_left c hpart) houtside
  · cases c with
    | nil =>
        rw [List.append_nil] at hc
        exact absurd (hc ▸ hpart) houtside
    | cons head back' =>
        rw [List.cons_append] at hrest
        injection hrest with hhead hback
        refine ⟨front, text, back', by rw [hc, hhead], hfront, ?_⟩
        intro p hp
        apply hunique
        rw [hback]
        rcases List.mem_append.mp hp with hp | hp
        · exact List.mem_append_left _ hp
        · exact List.mem_append_right _ (List.mem_append_left _ hp)

/-! ## The calls -/

/-- What a call is to the headers: nothing, an entry, or a change of file. -/
inductive Turn (env : Env) (r r' : Run) (op : Op) : Prop
  | quiet
      (op_quiet : op.isFileWrite = false ∧ op.changes = false ∧ ∀ level, op.logs level = false)
      (writes : ∀ w ∈ op.writes env r.calls r.state,
        w.2.isHeader = false ∧ w.2.isMessage = false)
      (firstEntry : r'.state.sink._firstEntry = r.state.sink._firstEntry)
      (fileName : r'.state.fileName = r.state.fileName)
  | write (message : LogMessage) (now : Int)
      (op_eq : op = .fileWrite message now)
      (firstEntry : r'.state.sink._firstEntry = false)
      (fileName : r'.state.fileName = r.state.fileName)
  | change
      (op_change : op.isFileWrite = false ∧ op.changes = true ∧ ∀ level, op.logs level = false)
      (newLog : op.newLog env r.state.sink._log_prefix_backup = some r'.state.fileName)
      (writes : ∃ text leaving arriving,
        op.writes env r.calls r.state = [(r.state.fileName, .header text),
          (r.state.fileName, .notice leaving), (r'.state.fileName, .notice arriving)])
      (firstEntry : r'.state.sink._firstEntry = r.state.sink._firstEntry)

theorem turn_step {env : Env} {r r' : Run} {op : Op} (hr' : step env r op = some r') :
    Turn env r r' op := by
  have hsink := sink_step hr'
  cases op with
  | fileWrite message now =>
      refine .write message now rfl ?_ ?_
      · rw [hsink]
        rfl
      · rw [State.fileName, hsink]
        rfl
  | fileName | overrideLogDetails | overrideLogHeader =>
      refine .quiet ⟨rfl, rfl, fun _ => rfl⟩ ?_ ?_ ?_
      · intro w hw
        cases hw
      · rw [hsink]
        rfl
      · rw [State.fileName, hsink]
        rfl
  | changeLogFile directory logger_id level now nowName nowHeader opens =>
      cases opens with
      | false =>
          refine .quiet ⟨rfl, rfl, fun _ => rfl⟩ ?_ ?_ ?_
          · intro w hw
            simp only [Op.writes, Bool.false_eq_true, if_false, List.mem_singleton] at hw
            rw [hw]
            exact ⟨rfl, rfl⟩
          · rw [hsink]
            rfl
          · rw [State.fileName, hsink]
            rfl
      | true =>
          have hname : r'.state.fileName =
              r.state.prospect_log env directory logger_id level nowName := by
            rw [State.fileName, hsink]
            rfl
          refine .change ⟨rfl, rfl, fun _ => rfl⟩ ?_ ?_ ?_
          · rw [hname]
            rfl
          · rw [hname]
            exact ⟨_, _, _, rfl⟩
          · rw [hsink]
            rfl

theorem level_step {env : Env} {r r' : Run} {op : Op} (hr' : step env r op = some r') :
    r'.state.sink.min_loglevel_ = r.state.sink.min_loglevel_ := by
  rw [sink_step hr']
  cases op with
  | changeLogFile directory logger_id level now nowName nowHeader opens => cases opens <;> rfl
  | fileWrite | fileName | overrideLogDetails | overrideLogHeader => rfl

/-! ## Runs -/

section
variable {env : Env} {written : List (String × Part)} {opened : List String} {r : Run}

theorem partsOf_singleton (path : String) (part : Part) : partsOf path [(path, part)] = [part] := by
  simp [partsOf]

theorem mem_partsOf {path : String} {part : Part} :
    part ∈ partsOf path written ↔ (path, part) ∈ written := by
  simp [partsOf, and_comm]

/-- No message has been written. -/
def Unused (written : List (String × Part)) : Prop := ∀ w ∈ written, w.2.isMessage = false

/-- No header has been written to a file. -/
def Bare (path : String) (written : List (String × Part)) : Prop :=
  ∀ part ∈ partsOf path written, part.isHeader = false

theorem Unused.headed (h : Unused written) (path : String) : Headed (partsOf path written) := by
  apply headed_of_no_message
  intro part hpart
  exact h _ (mem_partsOf.mp hpart)

theorem Unused.append (h : Unused written) {rest : List (String × Part)} (hrest : Unused rest) :
    Unused (written ++ rest) := by
  intro w hw
  rcases List.mem_append.mp hw with hw | hw
  · exact h w hw
  · exact hrest w hw

theorem Bare.append {path : String} (h : Bare path written) {rest : List (String × Part)}
    (hrest : Bare path rest) : Bare path (written ++ rest) := by
  intro part hpart
  rw [partsOf_append] at hpart
  rcases List.mem_append.mp hpart with hpart | hpart
  · exact h part hpart
  · exact hrest part hpart

theorem bare_message (path : String) (i : ℕ) (text : String) :
    Bare path [(path, .message i text)] := by
  intro part hpart
  rw [partsOf_singleton, List.mem_singleton] at hpart
  rw [hpart]
  rfl

/-- A file without a header is not right once a message is written to it. -/
theorem Bare.not_headed {path : String} (h : Bare path written) {i : ℕ} {text : String}
    (hmessage : .message i text ∈ partsOf path written) : ¬ Headed (partsOf path written) := by
  intro hheaded
  have hone := hheaded.countP ⟨_, hmessage, rfl⟩
  have hzero : (partsOf path written).countP Part.isHeader = 0 := by
    rw [List.countP_eq_zero]
    intro part hpart
    simp [h part hpart]
  omega

/-- A file that no part has gone to. -/
theorem Recorded.bare_of_not_mem (h : Recorded written opened r.state) {path : String}
    (hpath : path ∉ opened) : Bare path written := by
  intro part hpart
  exact absurd (h.written _ (mem_partsOf.mp hpart)) hpath

/-- What is wrong in a file stays wrong in a run. -/
theorem not_headed_of_writes {path : String} (h : ¬ Headed (partsOf path written))
    (rest : List (String × Part)) : ¬ ∀ path, Headed (partsOf path (written ++ rest)) := by
  intro hall
  have hheaded := hall path
  rw [partsOf_append] at hheaded
  exact h hheaded.of_append

/-- Notices change nothing about the headers. -/
theorem bare_of_quiet {rest : List (String × Part)}
    (h : ∀ w ∈ rest, w.2.isHeader = false ∧ w.2.isMessage = false) (path : String) :
    Bare path rest := by
  intro part hpart
  exact (h _ (mem_partsOf.mp hpart)).1

theorem writes_fileWrite {message : LogMessage} {now : Int}
    (hfirst : r.state.sink._firstEntry = false) :
    (Op.fileWrite message now).writes env r.calls r.state =
      if (Op.fileWrite message now).logs r.state.sink.min_loglevel_ then
        [(r.state.fileName, .message r.calls
          (message.toString env r.state.sink._log_details_func).1)]
      else [] := by
  by_cases hmin : message.level_value < r.state.sink.min_loglevel_.value
  · simp [Op.writes, Op.logs, hfirst, hmin]
  · simp [Op.writes, Op.logs, hfirst, hmin]

/-- After a change of file the new file has no header. -/
theorem Recorded.bare_of_change (h : Recorded written opened r.state) {path text leaving
    arriving : String} (hpath : path ∉ opened) :
    Bare path (written ++ [(r.state.fileName, .header text), (r.state.fileName, .notice leaving),
      (path, .notice arriving)]) := by
  have hne : r.state.fileName ≠ path := by
    intro heq
    exact hpath (heq ▸ h.fileName)
  apply (h.bare_of_not_mem hpath).append
  intro part hpart
  simp only [mem_partsOf, List.mem_cons, Prod.mk.injEq, List.not_mem_nil, or_false] at hpart
  rcases hpart with hpart | hpart | hpart
  · exact absurd hpart.1.symm hne
  · exact absurd hpart.1.symm hne
  · rw [hpart.2]
    rfl

/-- A sink that is past its first entry, in a file without a header: as long as it writes no
message, no file is wrong. -/
theorem Recorded.headed_iff_of_bare (ops : List Op) (h : Recorded written opened r.state)
    (hnodup : (opened ++
      ops.filterMap (Op.newLog env r.state.sink._log_prefix_backup)).Nodup)
    (hfirst : r.state.sink._firstEntry = false) (hunused : Unused written)
    (hbare : Bare r.state.fileName written) :
    (∀ path, Headed (partsOf path (written ++ writesAlong env r ops))) ↔
      ∀ op ∈ ops, op.logs r.state.sink.min_loglevel_ = false := by
  induction ops generalizing r written opened with
  | nil => simpa [writesAlong] using hunused.headed
  | cons op ops ih =>
      obtain ⟨r₁, opened₁, hr₁, hrec₁, hfresh, hopened⟩ := h.cons env hnodup
      have ih₁ := ih hrec₁ (hopened ▸ hnodup)
      rw [level_step hr₁] at ih₁
      rw [writesAlong_cons hr₁, ← List.append_assoc, List.forall_mem_cons]
      cases turn_step hr₁ with
      | quiet hop hwrites hfirst₁ hname =>
          rw [ih₁ (hfirst₁.trans hfirst) (hunused.append fun w hw => (hwrites w hw).2)
            (by rw [hname]; exact hbare.append (bare_of_quiet hwrites _))]
          simp [hop.2.2]
      | write message now hop hfirst₁ hname =>
          subst hop
          rw [writes_fileWrite hfirst] at ih₁ ⊢
          by_cases hlogs : (Op.fileWrite message now).logs r.state.sink.min_loglevel_ = true
          · rw [if_pos hlogs]
            have hwrong := (hbare.append (bare_message _ r.calls
              (message.toString env r.state.sink._log_details_func).1)).not_headed
              (mem_partsOf.mpr (List.mem_append_right _ (List.mem_singleton_self _)))
            constructor
            · intro hall
              exact absurd hall (not_headed_of_writes hwrong _)
            · intro hnone
              rw [hlogs] at hnone
              cases hnone.1
          · rw [if_neg hlogs, List.append_nil] at ih₁ ⊢
            rw [ih₁ hfirst₁ hunused (by rwa [hname])]
            simp [hlogs]
      | change hop hnew hwrites hfirst₁ =>
          obtain ⟨text, leaving, arriving, hwrites⟩ := hwrites
          rw [hwrites] at ih₁ ⊢
          rw [ih₁ (hfirst₁.trans hfirst) _ (h.bare_of_change (hfresh _ hnew))]
          · simp [hop.2.2]
          · apply hunused.append
            simp [Unused, Part.isMessage]

/-- The file has one header, before its messages. -/
def Begun (path : String) (written : List (String × Part)) : Prop :=
  ∃ front text back, partsOf path written = front ++ .header text :: back ∧
    (∀ part ∈ front, part.isMessage = false) ∧ ∀ part ∈ front ++ back, part.isHeader = false

theorem Begun.append {path : String} (h : Begun path written) {rest : List (String × Part)}
    (hrest : Bare path rest) : Begun path (written ++ rest) := by
  obtain ⟨front, text, back, heq, hfront, hunique⟩ := h
  refine ⟨front, text, back ++ partsOf path rest, ?_, hfront, ?_⟩
  · rw [partsOf_append, heq, List.append_assoc, List.cons_append]
  · intro part hpart
    rw [← List.append_assoc] at hpart
    rcases List.mem_append.mp hpart with hpart | hpart
    · exact hunique part hpart
    · exact hrest part hpart

/-- A message has been written to the file. -/
def Used (path : String) (written : List (String × Part)) : Prop :=
  ∃ part ∈ partsOf path written, part.isMessage = true

theorem used_append {path : String} {rest : List (String × Part)} :
    Used path (written ++ rest) ↔ Used path written ∨ Used path rest := by
  simp only [Used, partsOf_append, List.mem_append, or_and_right, exists_or]

theorem Unused.not_used (h : Unused written) (path : String) : ¬ Used path written := by
  intro hused
  obtain ⟨part, hpart, hmessage⟩ := hused
  rw [h _ (mem_partsOf.mp hpart)] at hmessage
  cases hmessage

theorem not_used_singleton {path path' : String} (h : path' ≠ path) (part : Part) :
    ¬ Used path [(path', part)] := by
  simp [Used, partsOf, h]

theorem unused_of_not_used (h : ∀ path, ¬ Used path written) : Unused written := by
  intro w hw
  by_contra hmessage
  exact h w.1 ⟨w.2, mem_partsOf.mpr hw, Bool.eq_true_of_not_eq_false hmessage⟩

/-- A second header is one too many in a file with a message. -/
theorem Begun.not_headed_of_change {path : String} (h : Begun path written)
    (hused : Used path written) (text : String) (rest : List (String × Part)) :
    ¬ Headed (partsOf path (written ++ (path, .header text) :: rest)) := by
  intro hheaded
  have hone := hheaded.countP (by
    obtain ⟨part, hpart, hmessage⟩ := hused
    exact ⟨part, by rw [partsOf_append]; exact List.mem_append_left _ hpart, hmessage⟩)
  obtain ⟨front, text', back, heq, -, -⟩ := h
  have hcons : partsOf path ((path, .header text) :: rest) = .header text :: partsOf path rest := by
    simp [partsOf]
  rw [partsOf_append, heq, hcons, List.countP_append, List.countP_append, List.countP_cons,
    List.countP_cons] at hone
  simp only [Part.isHeader, if_true] at hone
  omega

/-- A sink that is past its first entry, in the file with its header: no file is wrong unless
there are messages and a change of file. -/
theorem Recorded.headed_iff_of_begun (ops : List Op) (h : Recorded written opened r.state)
    (hnodup : (opened ++
      ops.filterMap (Op.newLog env r.state.sink._log_prefix_backup)).Nodup)
    (hfirst : r.state.sink._firstEntry = false) (hbegun : Begun r.state.fileName written)
    (hothers : ∀ path ≠ r.state.fileName, ¬ Used path written) :
    (∀ path, Headed (partsOf path (written ++ writesAlong env r ops))) ↔
      ((Used r.state.fileName written ∨ ∃ op ∈ ops, op.logs r.state.sink.min_loglevel_ = true) →
        ∀ op ∈ ops, op.changes = false) := by
  induction ops generalizing r written opened with
  | nil =>
      simp only [writesAlong, List.append_nil, List.not_mem_nil, false_implies, implies_true,
        iff_true]
      intro path
      by_cases hpath : path = r.state.fileName
      · intro _
        rw [hpath]
        exact hbegun
      · intro hmessage
        exact absurd hmessage (hothers path hpath)
  | cons op ops ih =>
      obtain ⟨r₁, opened₁, hr₁, hrec₁, hfresh, hopened⟩ := h.cons env hnodup
      have ih₁ := ih hrec₁ (hopened ▸ hnodup)
      rw [level_step hr₁] at ih₁
      rw [writesAlong_cons hr₁, ← List.append_assoc, List.forall_mem_cons]
      simp only [List.exists_mem_cons_iff]
      cases turn_step hr₁ with
      | quiet hop hwrites hfirst₁ hname =>
          have hunused : Unused (op.writes env r.calls r.state) := fun w hw => (hwrites w hw).2
          rw [hname] at ih₁
          rw [ih₁ (hfirst₁.trans hfirst) (hbegun.append (bare_of_quiet hwrites _))]
          · simp [hop.2.1, hop.2.2, used_append, hunused.not_used]
          · intro path hpath
            simpa [used_append, hunused.not_used] using hothers path hpath
      | write message now hop hfirst₁ hname =>
          subst hop
          rw [writes_fileWrite hfirst] at ih₁ ⊢
          rw [hname] at ih₁
          by_cases hlogs : (Op.fileWrite message now).logs r.state.sink.min_loglevel_ = true
          · rw [if_pos hlogs] at ih₁ ⊢
            have hused : Used r.state.fileName (written ++ [(r.state.fileName, .message r.calls
                (message.toString env r.state.sink._log_details_func).1)]) :=
              ⟨_, mem_partsOf.mpr (List.mem_append_right _ (List.mem_singleton_self _)), rfl⟩
            rw [ih₁ hfirst₁ (hbegun.append (bare_message _ _ _))]
            · simp [hused, hlogs, Op.changes]
            · intro path hpath
              rw [used_append, not_or]
              exact ⟨hothers path hpath, not_used_singleton (Ne.symm hpath) _⟩
          · rw [if_neg hlogs, List.append_nil] at ih₁ ⊢
            rw [ih₁ hfirst₁ hbegun hothers]
            simp [hlogs, Op.changes]
      | change hop hnew hwrites hfirst₁ =>
          obtain ⟨text, leaving, arriving, hwrites⟩ := hwrites
          rw [hwrites] at hrec₁ ⊢
          by_cases hused : Used r.state.fileName written
          · have hwrong := hbegun.not_headed_of_change hused text
              [(r.state.fileName, .notice leaving), (r₁.state.fileName, .notice arriving)]
            constructor
            · intro hall
              exact absurd hall (not_headed_of_writes hwrong _)
            · intro hnone
              have hchange := (hnone (.inl hused)).1
              rw [hop.2.1] at hchange
              cases hchange
          · have hunused : Unused written := by
              apply unused_of_not_used
              intro path
              by_cases hpath : path = r.state.fileName
              · rwa [hpath]
              · exact hothers path hpath
            have hrest := hrec₁.headed_iff_of_bare ops (hopened ▸ hnodup) (hfirst₁.trans hfirst)
              (hunused.append (by simp [Unused, Part.isMessage]))
              (h.bare_of_change (hfresh _ hnew))
            rw [level_step hr₁] at hrest
            rw [hrest]
            simp [hused, hop.2.1, hop.2.2]

theorem writes_first {message : LogMessage} {now : Int}
    (hfirst : r.state.sink._firstEntry = true) :
    (Op.fileWrite message now).writes env r.calls r.state =
      (r.state.fileName, .header (G3log.header env r.state.sink._header now)) ::
        if (Op.fileWrite message now).logs r.state.sink.min_loglevel_ then
          [(r.state.fileName, .message r.calls
            (message.toString env r.state.sink._log_details_func).1)]
        else [] := by
  by_cases hmin : message.level_value < r.state.sink.min_loglevel_.value
  · simp [Op.writes, Op.logs, hfirst, hmin]
  · simp [Op.writes, Op.logs, hfirst, hmin]

/-- The first entry begins the file that it goes to, -/
theorem begun_first {cur : String} (hunused : Unused written) (hbare : Bare cur written)
    (text : String) (i : ℕ) (text' : String) (logs : Bool) :
    Begun cur (written ++ (cur, .header text) ::
      if logs then [(cur, .message i text')] else []) := by
  refine ⟨partsOf cur written, text, partsOf cur (if logs then [(cur, .message i text')] else []),
    ?_, ?_, ?_⟩
  · rw [partsOf_append]
    simp [partsOf]
  · intro part hpart
    exact hunused _ (mem_partsOf.mp hpart)
  · intro part hpart
    rcases List.mem_append.mp hpart with hpart | hpart
    · exact hbare part hpart
    · cases logs with
      | false => cases hpart
      | true => exact bare_message cur i text' part hpart

/-- and no other file has a message then. -/
theorem used_first (hunused : Unused written) (cur text : String) (i : ℕ) (text' : String)
    (logs : Bool) (path : String) :
    Used path (written ++ (cur, .header text) ::
      if logs then [(cur, .message i text')] else []) ↔ path = cur ∧ logs = true := by
  have hheader : ¬ Used path [(cur, .header text)] := by
    simp [Used, partsOf, Part.isMessage]
  rw [← List.singleton_append, used_append, used_append]
  simp only [hunused.not_used path, hheader, false_or]
  cases logs with
  | false => simp [Used, partsOf]
  | true =>
      by_cases hpath : path = cur
      · simp [Used, partsOf, Part.isMessage, hpath]
      · simp [Used, partsOf, hpath, Ne.symm hpath]

/-- A sink before its first entry: a file is wrong once there are messages and a change of
file after the first entry. -/
theorem Recorded.headed_iff_of_first (ops : List Op) (h : Recorded written opened r.state)
    (hnodup : (opened ++
      ops.filterMap (Op.newLog env r.state.sink._log_prefix_backup)).Nodup)
    (hfirst : r.state.sink._firstEntry = true) (hunused : Unused written)
    (hbare : Bare r.state.fileName written) :
    (∀ path, Headed (partsOf path (written ++ writesAlong env r ops))) ↔
      HeaderInTime r.state.sink.min_loglevel_ ops := by
  induction ops generalizing r written opened with
  | nil =>
      simp only [writesAlong, List.append_nil]
      constructor
      · intro _ _ op hop
        cases hop
      · intro _ path
        exact hunused.headed path
  | cons op ops ih =>
      obtain ⟨r₁, opened₁, hr₁, hrec₁, hfresh, hopened⟩ := h.cons env hnodup
      have ih₁ := ih hrec₁ (hopened ▸ hnodup)
      rw [level_step hr₁] at ih₁
      rw [writesAlong_cons hr₁, ← List.append_assoc, HeaderInTime, List.exists_mem_cons_iff]
      cases turn_step hr₁ with
      | quiet hop hwrites hfirst₁ hname =>
          rw [ih₁ (hfirst₁.trans hfirst) (hunused.append fun w hw => (hwrites w hw).2)
            (by rw [hname]; exact hbare.append (bare_of_quiet hwrites _)), HeaderInTime]
          simp [hop.1, hop.2.2]
      | write message now hop hfirst₁ hname =>
          subst hop
          rw [writes_first hfirst] at hrec₁ ⊢
          have hused := used_first hunused r.state.fileName
            (G3log.header env r.state.sink._header now) r.calls
            (message.toString env r.state.sink._log_details_func).1
            ((Op.fileWrite message now).logs r.state.sink.min_loglevel_)
          have hrest := hrec₁.headed_iff_of_begun ops (hopened ▸ hnodup) hfirst₁
            (hname ▸ begun_first hunused hbare _ r.calls _ _)
            (by
              intro path hpath
              rw [hname] at hpath
              rw [hused, not_and]
              intro heq
              exact absurd heq hpath)
          rw [hname, level_step hr₁, hused] at hrest
          have hwrite : (Op.fileWrite message now).isFileWrite = true := rfl
          have hchanges : (Op.fileWrite message now).changes = false := rfl
          rw [hrest]
          simp [hwrite, hchanges]
      | change hop hnew hwrites hfirst₁ =>
          obtain ⟨text, leaving, arriving, hwrites⟩ := hwrites
          rw [hwrites] at ih₁ ⊢
          rw [ih₁ (hfirst₁.trans hfirst) (hunused.append (by simp [Unused, Part.isMessage]))
            (h.bare_of_change (hfresh _ hnew)), HeaderInTime]
          simp [hop.1, hop.2.2]

end

/-- In a run of a constructed sink that opens no file twice, every file holds the parts that
were written to it, and each one that received a message has one header before the first
message, if and only if no file is changed after the first entry in a run with messages. -/
theorem headed_iff (env : Env) (logPrefix log_directory logger_id : String) (level : LEVELS)
    (now : Int) (opens opensFallback : Bool) (disk : Disk) (σ : State)
    (hσ : create env logPrefix log_directory level logger_id now opens opensFallback disk =
      some σ) (hopen : σ.sink._outptr.isSome) (ops : List Op)
    (hnodup : (σ.fileName :: ops.filterMap (Op.newLog env (prefixSanityFix logPrefix))).Nodup) :
    ∃ r, run env σ ops = some r ∧
      (∀ path ∈ σ.fileName :: ops.filterMap (Op.newLog env (prefixSanityFix logPrefix)),
        r.state.disk.files path = some (bytesOf path (writesAlong env (start σ) ops))) ∧
      ((∀ path, Headed (partsOf path (writesAlong env (start σ) ops))) ↔
        HeaderInTime level ops) := by
  obtain ⟨-, -, hfirst, hlevel, hverified⟩ := create_fields hσ
  have hstart : Recorded [] [σ.fileName] (start σ).state := recorded_start hσ hopen
  rw [← hverified] at hnodup ⊢
  obtain ⟨r, hr, hrec⟩ := hstart.runFrom env ops hnodup
  have hunused : Unused [] := by
    intro w hw
    cases hw
  have hbare : Bare (start σ).state.fileName [] := by
    intro part hpart
    cases hpart
  have hiff := hstart.headed_iff_of_first ops hnodup hfirst hunused hbare
  refine ⟨r, hr, hrec.files, ?_⟩
  rw [← hlevel]
  exact hiff

/-! ## A change after the first entry -/

/-- To a file in another directory. -/
def moveAway : Op := .changeLogFile "/var/log/" "" G3LOG_INFO 0 0 0 true

theorem headed_iff_moveAway :
    ∃ r, run epoch sinkAtEpoch [moveAway, .fileWrite greeting 0] = some r ∧
      ∀ path, Headed (partsOf path
        (writesAlong epoch (start sinkAtEpoch) [moveAway, .fileWrite greeting 0])) := by
  obtain ⟨r, hr, -, hiff⟩ := headed_iff epoch "log" "/tmp/" "" G3LOG_INFO 0 true true
    (diskOf (fun _ => none) fun _ => none) sinkAtEpoch createdAtEpoch_eq sinkAtEpoch_isOpen
    [moveAway, .fileWrite greeting 0] (by decide +kernel)
  refine ⟨r, hr, hiff.mpr ?_⟩
  intro _ op hop
  obtain rfl : op = .fileWrite greeting 0 := by
    simpa [moveAway, Op.isFileWrite] using hop
  rfl

/-- The old file gets a second header, and the new one none. -/
theorem change_misplaces_header :
    ¬ ∀ (env : Env) (logPrefix log_directory logger_id : String) (level : LEVELS) (now : Int)
      (opens opensFallback : Bool) (disk : Disk) (σ : State) (ops : List Op),
      create env logPrefix log_directory level logger_id now opens opensFallback disk = some σ →
        σ.sink._outptr.isSome →
          (σ.fileName :: ops.filterMap (Op.newLog env (prefixSanityFix logPrefix))).Nodup →
            ∀ path, Headed (partsOf path (writesAlong env (start σ) ops)) := by
  intro h
  let ops : List Op := [.fileWrite greeting 0, moveAway, .fileWrite greeting 0]
  have hnodup : (sinkAtEpoch.fileName ::
      ops.filterMap (Op.newLog epoch (prefixSanityFix "log"))).Nodup := by decide +kernel
  have hheaded := h epoch "log" "/tmp/" "" G3LOG_INFO 0 true true _ sinkAtEpoch ops
    createdAtEpoch_eq sinkAtEpoch_isOpen hnodup
  have hused : ∃ part ∈ partsOf sinkAtEpoch.fileName
      (writesAlong epoch (start sinkAtEpoch) ops), part.isMessage = true := by decide +kernel
  have htwo : (partsOf sinkAtEpoch.fileName
      (writesAlong epoch (start sinkAtEpoch) ops)).countP Part.isHeader = 2 := by decide +kernel
  have hone := (hheaded sinkAtEpoch.fileName).countP hused
  omega

end G3log.FileSink
