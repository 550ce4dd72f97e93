import G3log.FileSink

/-!
# The stream of a file sink

`filestream()` dereferences `_outptr`, and the constructor checks with an assert that there
is a stream: *cannot open log file at startup*. A build without asserts goes on. Every call
leaves an open stream open, whatever becomes of the files that are opened later, so it
is all up to the constructor, which tries two files.

## Main definitions

* `Streaming` -- there is a stream after each call, and for the destructor.
* `streaming_iff` -- when that is so.
* `null_runFrom` -- a null stream stays null.
-/

namespace G3log.FileSink

/-- After any of the calls the sink has a stream, and no call dereferences null, nor would
the destructor. -/
def Streaming (env : Env) (σ : State) (ops : List Op) : Prop :=
  ∀ pre, pre <+: ops → ∃ r, run env σ pre = some r ∧ r.state.sink._outptr.isSome = true ∧
    ∀ now, (r.state.destroy env now).isSome = true

/-- The constructor has a stream if one of the two files opens. -/
theorem isSome_create_iff {env : Env} {logPrefix log_directory logger_id : String}
    {level : LEVELS} {now : Int} {opens opensFallback : Bool} {disk : Disk} {σ : State}
    (hσ : create env logPrefix log_directory level logger_id now opens opensFallback disk =
      some σ) :
    σ.sink._outptr.isSome = true ↔ opens = true ∨ opensFallback = true := by
  unfold create at hσ
  simp only [createLogFile, openLogFile] at hσ
  split at hσ
  · cases hσ
  · cases opens with
    | true =>
        obtain rfl := Option.some.inj hσ
        simp
    | false =>
        cases opensFallback with
        | true =>
            obtain rfl := Option.some.inj hσ
            simp
        | false =>
            obtain rfl := Option.some.inj hσ
            simp

theorem isSome_destroy (env : Env) (now : Int) (σ : State) :
    (σ.destroy env now).isSome = σ.sink._outptr.isSome := by
  simp [State.destroy, State.insert]

/-- An open stream stays open through any calls. -/
theorem exists_runFrom {env : Env} {r : Run} (h : r.state.sink._outptr.isSome = true)
    (ops : List Op) :
    ∃ r', runFrom env r ops = some r' ∧ r'.state.sink._outptr.isSome = true := by
  induction ops generalizing r with
  | nil => exact ⟨r, rfl, h⟩
  | cons op ops ih =>
      obtain ⟨r₁, hr₁, hopen₁⟩ := exists_step h env op
      obtain ⟨r', hr', hopen'⟩ := ih hopen₁
      exact ⟨r', by simpa [runFrom, hr₁] using hr', hopen'⟩

/-- The sink always has a stream, if and only if one of the two files that the constructor
tries can be opened. -/
theorem streaming_iff (env : Env) (logPrefix log_directory logger_id : String) (level : LEVELS)
    (now : Int) (opens opensFallback : Bool) (disk : Disk) (σ : State)
    (hσ : create env logPrefix log_directory level logger_id now opens opensFallback disk =
      some σ) (ops : List Op) :
    Streaming env σ ops ↔ opens = true ∨ opensFallback = true := by
  rw [← isSome_create_iff hσ]
  constructor
  · intro h
    obtain ⟨r, hr, hopen, -⟩ := h [] (List.nil_prefix)
    cases hr
    exact hopen
  · intro h pre _
    have hstart : (start σ).state.sink._outptr.isSome = true := h
    obtain ⟨r, hr, hopen⟩ : ∃ r, run env σ pre = some r ∧ r.state.sink._outptr.isSome = true :=
      exists_runFrom hstart pre
    refine ⟨r, hr, hopen, ?_⟩
    intro at_
    rw [isSome_destroy]
    exact hopen

theorem streaming_iff_epoch :
    Streaming epoch sinkAtEpoch [.changeLogFile "/var/log/" "" G3LOG_INFO 0 0 0 false] :=
  (streaming_iff epoch "log" "/tmp/" "" G3LOG_INFO 0 true true
    (diskOf (fun _ => none) fun _ => none) sinkAtEpoch createdAtEpoch_eq _).mpr (.inl rfl)

/-! ## Without a stream -/

theorem insert_null {σ : State} (h : σ.sink._outptr = none) (text : List Cell) :
    σ.insert text = none := by
  simp [State.insert, h]

/-- A call on a null stream dereferences it or leaves it null. A change of file writes to the
old stream first, whether or not there is a new one. -/
theorem null_step {env : Env} {r r' : Run} {op : Op} (h : r.state.sink._outptr = none)
    (hr' : step env r op = some r') : r'.state.sink._outptr = none := by
  cases op with
  | fileWrite message now =>
      cases hfirst : r.state.sink._firstEntry with
      | true =>
          simp [step, State.fileWrite, State.firstEntry, hfirst, State.addLogFileHeader,
            insert_null h] at hr'
      | false =>
          by_cases hlevel : message.level_value < r.state.sink.min_loglevel_.value
          · simp only [step, State.fileWrite, State.firstEntry, hfirst, Bool.false_eq_true,
              if_false, Option.bind_eq_bind, Option.bind_some, hlevel, if_true] at hr'
            obtain rfl := Option.some.inj hr'
            exact h
          · simp [step, State.fileWrite, State.firstEntry, hfirst, hlevel, insert_null h] at hr'
  | fileName =>
      obtain rfl := Option.some.inj hr'
      exact h
  | overrideLogDetails func =>
      obtain rfl := Option.some.inj hr'
      exact h
  | overrideLogHeader change =>
      obtain rfl := Option.some.inj hr'
      exact h
  | changeLogFile directory logger_id level now nowName nowHeader opens =>
      cases opens <;>
        simp [step, State.changeLogFile, createLogFile, openLogFile, State.addLogFileHeader,
          State.insert, h] at hr'

/-- A sink without a stream never gets one, and the destructor dereferences null if no call
has done so before. -/
theorem null_runFrom {env : Env} {r r' : Run} {ops : List Op}
    (h : r.state.sink._outptr = none) (hr' : runFrom env r ops = some r') :
    r'.state.sink._outptr = none ∧ ∀ now, r'.state.destroy env now = none := by
  induction ops generalizing r with
  | nil =>
      obtain rfl := Option.some.inj hr'
      exact ⟨h, fun now => insert_null h _⟩
  | cons op ops ih =>
      simp only [runFrom, List.foldlM_cons, Option.bind_eq_bind, Option.bind_eq_some_iff] at hr'
      obtain ⟨r₁, hr₁, hrest⟩ := hr'
      exact ih (null_step h hr₁) hrest

/-- Neither file opens, and the first message is written through a null pointer. -/
theorem no_file_opens :
    ∃ σ, create epoch "log" "/tmp/" G3LOG_INFO "" 0 false false
        (diskOf (fun _ => none) fun _ => none) = some σ ∧
      σ.sink._outptr = none ∧ run epoch σ [.fileWrite greeting 0] = none ∧
      σ.destroy epoch 0 = none ∧
      ¬ ∀ (env : Env) (logPrefix log_directory logger_id : String) (level : LEVELS) (now : Int)
        (opens opensFallback : Bool) (disk : Disk) (σ : State) (ops : List Op),
        create env logPrefix log_directory level logger_id now opens opensFallback disk =
          some σ → Streaming env σ ops := by
  obtain ⟨σ, hσ⟩ : ∃ σ, create epoch "log" "/tmp/" G3LOG_INFO "" 0 false false
      (diskOf (fun _ => none) fun _ => none) = some σ :=
    Option.isSome_iff_exists.mp (by decide +kernel)
  have hnull : σ.sink._outptr = none := by
    have hiff := isSome_create_iff hσ
    simpa using hiff
  have hfirst : σ.sink._firstEntry = true := by
    have heq : (create epoch "log" "/tmp/" G3LOG_INFO "" 0 false false
        (diskOf (fun _ => none) fun _ => none)).map (·.sink._firstEntry) = some true := by
      decide +kernel
    simpa [hσ] using heq
  refine ⟨σ, hσ, hnull, ?_, insert_null hnull _, ?_⟩
  · simp [run, start, step, State.fileWrite, State.firstEntry, hfirst, State.addLogFileHeader,
      insert_null hnull]
  · intro h
    obtain ⟨r, hr, hopen, -⟩ := h _ _ _ _ _ _ _ _ _ σ [] hσ [] List.nil_prefix
    cases hr
    simp [start, hnull] at hopen

end G3log.FileSink
