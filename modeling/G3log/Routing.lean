import G3log.LoggerInstance

/-!
# Where messages go

The calls of one thread, beside any number of workers at work. What the calls made so far
say about the active worker, the message kept for the first initialization and the messages
for each worker is told here from the list of calls alone; the global variables and the
queues are shown to say the same whenever a call has returned.

## Main definitions

* `activeAfter`, `firstLog`, `routed`, `messagesFor` -- what a list of calls says.
* `sequentialRun` -- the runs of one thread.
* `Routed` -- the variables and the queues between the calls, and within one.
* `routed_once` -- they agree with the list of calls.
-/

namespace G3log

open Transition

/-! ## What the calls say -/

/-- The active worker after one more call. -/
def activeNext (active : Option WorkerId) : LoggerOp → Option WorkerId
  | .LOG _ => active
  | .LOG_FATAL _ => active
  | .initializeLogging bgworker => bgworker
  | .shutDownLogging => none
  | .destroy w => if active = some w then none else active

/-- The active worker after some calls. -/
def activeAfter (calls : List LoggerOp) : Option WorkerId := calls.foldl activeNext none

def LoggerOp.initializes : LoggerOp → Bool
  | .initializeLogging _ => true
  | _ => false

/-- Logging was initialized, if only for a time. -/
def initialized (calls : List LoggerOp) : Bool := calls.any LoggerOp.initializes

def LoggerOp.logs : LoggerOp → Option LogMessage
  | .LOG msg => some msg
  | _ => none

/-- The first message logged. -/
def firstLog (calls : List LoggerOp) : Option LogMessage := calls.findSome? LoggerOp.logs

/-- What a call, made after others, adds to the messages for a worker: a message goes to the
active worker; the first initialization brings the first message there was; and a worker
that is destroyed while another one is active leaves a warning with that. -/
def routed (before : List LoggerOp) (op : LoggerOp) (w : WorkerId) : List LogMessage :=
  match op with
  | .LOG msg => if activeAfter before = some w then [msg] else []
  | .initializeLogging bgworker =>
      if bgworker = some w ∧ initialized before = false then
        ((firstLog before).map notInitialized).toList
      else []
  | .destroy w' => if activeAfter before = some w ∧ w ≠ w' then [ignoredShutDown] else []
  | .LOG_FATAL _ => []
  | .shutDownLogging => []

/-- The messages for a worker, from each call what it adds. -/
def messagesFor (calls : List LoggerOp) (w : WorkerId) : List LogMessage :=
  (List.range calls.length).flatMap fun i =>
    (calls[i]?.map fun op => routed (calls.take i) op w).getD []

/-- No fatal message, and logging is initialized with a worker and only while none is
active. -/
def sequential (active : Option WorkerId) : List LoggerOp → Bool
  | [] => true
  | .LOG_FATAL _ :: _ => false
  | .initializeLogging bgworker :: calls =>
      active.isNone && bgworker.isSome && sequential bgworker calls
  | op :: calls => sequential (activeNext active op) calls

theorem activeAfter_concat (calls : List LoggerOp) (op : LoggerOp) :
    activeAfter (calls ++ [op]) = activeNext (activeAfter calls) op := by
  simp [activeAfter]

theorem messagesFor_concat (calls : List LoggerOp) (op : LoggerOp) (w : WorkerId) :
    messagesFor (calls ++ [op]) w = messagesFor calls w ++ routed calls op w := by
  have hfront : ∀ i ∈ List.range calls.length,
      ((calls ++ [op])[i]?.map fun op' => routed ((calls ++ [op]).take i) op' w).getD [] =
        (calls[i]?.map fun op' => routed (calls.take i) op' w).getD [] := by
    intro i hi
    have hlt : i < calls.length := List.mem_range.mp hi
    rw [List.getElem?_append_left hlt, List.take_append_of_le_length hlt.le]
  rw [messagesFor, List.length_append, List.length_singleton, List.range_succ,
    List.flatMap_append, List.flatMap_congr hfront]
  simp [messagesFor]

/-! ## The runs of one thread -/

/-- The calls of the first thread, beside the threads of the workers. -/
def sequentialRun (calls : List LoggerOp) : System Process LoggerAction where
  Start σ := σ = .start fun t => if t = 0 then calls else []
  step := Process.step

def WorkerTask.saved : WorkerTask → Option LogMessage
  | .bgSave msg => some msg
  | _ => none

/-- The messages enqueued on a worker so far, in order. -/
def Process.enqueued (w : WorkerId) (σ : Process) : List LogMessage :=
  (workOf (σ.workers w)._bg.sent).filterMap WorkerTask.saved

/-- The pointer aside, the variables and the queues say what the calls say. -/
structure Agree (calls : List LoggerOp) (σ : Process) : Prop where
  flag : σ.g_save_first_unintialized_flag = initialized calls
  first : initialized calls = false →
    σ.g_first_unintialized_msg = (firstLog calls).map notInitialized ∧
      σ.g_set_first_uninitialized_flag = (firstLog calls).isSome
  enqueued : ∀ w, σ.enqueued w = messagesFor calls w
  noFatal : ∀ w msg, .work (.bgFatal msg) ∉ (σ.workers w)._bg.sent
  running : σ.exited = false
  others : ∀ t, t ≠ 0 → σ.threads t = ⟨[], .idle⟩

namespace LoggerPc

/-- Between two calls, or in a destructor that has seen to the pointer. -/
def between : LoggerPc → Bool
  | .idle | .sendClear _ | .waitClear _ | .resetBg _ | .joinBg _ => true
  | _ => false

/-- Within a call that has changed nothing so far, but for the warning of a destructor. -/
inductive Within (active : Option WorkerId) : LoggerOp → LoggerPc → Prop
  | pushMessage {msg : LogMessage} : Within active (.LOG msg) (.pushMessageToLogger msg none)
  | setFirst {msg : LogMessage} (h : active = none) :
      Within active (.LOG msg) (.setFirst msg none)
  | save {msg : LogMessage} (h : active ≠ none) : Within active (.LOG msg) (.save msg none)
  | send {msg : LogMessage} {w : WorkerId} (h : active = some w) :
      Within active (.LOG msg) (.send w msg none)
  | lock {w : WorkerId} (h : active = none) :
      Within active (.initializeLogging (some w)) (.lock (some w))
  | initializeLogging {w : WorkerId} (h : active = none) :
      Within active (.initializeLogging (some w)) (.initializeLogging (some w))
  | saveFirst {w : WorkerId} (h : active = none) :
      Within active (.initializeLogging (some w)) (.saveFirst w)
  | shutDownLogging : Within active .shutDownLogging (.shutDownLogging none)
  | forActiveOnly {w : WorkerId} : Within active (.destroy w) (.shutDownLoggingForActiveOnly w)
  | isActive {w : WorkerId} (h : active ≠ none) : Within active (.destroy w) (.isActive w)
  | shutDown {w : WorkerId} (h : active = none ∨ active = some w) :
      Within active (.destroy w) (.shutDownLogging (some w))
  | warn {w w' : WorkerId} (h : active = some w') (hne : w' ≠ w) :
      Within active (.destroy w) (.pushMessageToLogger ignoredShutDown (some w))
  | warnSave {w w' : WorkerId} (h : active = some w') (hne : w' ≠ w) :
      Within active (.destroy w) (.save ignoredShutDown (some w))
  | warnSend {w w' : WorkerId} (h : active = some w') (hne : w' ≠ w) :
      Within active (.destroy w) (.send w' ignoredShutDown (some w))

end LoggerPc

/-- Where the thread is in its calls, with the pointer. -/
inductive Stage (calls done : List LoggerOp) (σ : Process) : Prop
  | between (hcalls : calls = done ++ (σ.threads 0).program)
      (hseq : sequential (activeAfter done) (σ.threads 0).program = true)
      (hptr : σ.g_logger_instance = activeAfter done)
      (hpc : (σ.threads 0).pc.between = true)
  /-- The pointer is about to be set, and everything else is done. -/
  | assigning {w : WorkerId} (hcalls : calls = done ++ (σ.threads 0).program)
      (hseq : sequential (activeAfter done) (σ.threads 0).program = true)
      (hpc : (σ.threads 0).pc = .setInstance w) (hactive : activeAfter done = some w)
  | within {op : LoggerOp} (hcalls : calls = done ++ op :: (σ.threads 0).program)
      (hseq : sequential (activeAfter done) (op :: (σ.threads 0).program) = true)
      (hptr : σ.g_logger_instance = activeAfter done)
      (hpc : (σ.threads 0).pc.Within (activeAfter done) op)

/-- In every state the calls made so far account for it. -/
def Routed (calls : List LoggerOp) (σ : Process) : Prop :=
  ∃ done, Agree done σ ∧ Stage calls done σ

/-! ## One more call -/

theorem initialized_concat (calls : List LoggerOp) (op : LoggerOp) :
    initialized (calls ++ [op]) = (initialized calls || op.initializes) := by
  simp [initialized]

theorem firstLog_concat (calls : List LoggerOp) (op : LoggerOp) :
    firstLog (calls ++ [op]) = (firstLog calls).or op.logs := by
  simp [firstLog, List.findSome?_append]

/-- There is no active worker before the first initialization. -/
theorem initialized_of_active {calls : List LoggerOp} (h : activeAfter calls ≠ none) :
    initialized calls = true := by
  induction calls using List.reverseRecOn with
  | nil => exact absurd rfl h
  | append_singleton calls op ih =>
      rw [initialized_concat, Bool.or_eq_true]
      cases op with
      | initializeLogging bgworker => exact .inr rfl
      | shutDownLogging =>
          rw [activeAfter_concat] at h
          exact absurd rfl h
      | LOG msg | LOG_FATAL msg =>
          rw [activeAfter_concat] at h
          exact .inl (ih h)
      | destroy w =>
          rw [activeAfter_concat, activeNext] at h
          split at h
          · exact absurd rfl h
          · exact .inl (ih h)

theorem sequential_tail {active : Option WorkerId} {op : LoggerOp} {calls : List LoggerOp}
    (h : sequential active (op :: calls) = true) :
    sequential (activeNext active op) calls = true := by
  cases op with
  | LOG_FATAL msg => cases h
  | initializeLogging bgworker =>
      simp only [sequential, Bool.and_eq_true] at h
      exact h.2
  | LOG msg | shutDownLogging | destroy w => exact h

namespace Process
variable (σ : Process)

theorem enqueued_sendBg (w w' : WorkerId) (task : WorkerTask) :
    (σ.sendBg w (.work task)).enqueued w' =
      σ.enqueued w' ++ if w' = w then task.saved.toList else [] := by
  by_cases hw : w' = w
  · subst hw
    cases hsaved : task.saved <;> simp [enqueued, hsaved]
  · simp [enqueued, hw]

theorem enqueued_sendBg_done (w w' : WorkerId) :
    (σ.sendBg w .done).enqueued w' = σ.enqueued w' := by
  by_cases hw : w' = w
  · subst hw
    simp [enqueued]
  · simp [enqueued, hw]

end Process

namespace Agree
variable {calls : List LoggerOp} {σ σ' : Process}

/-- Nothing that the calls speak of has changed. -/
theorem of_eq (h : Agree calls σ)
    (hflag : σ'.g_save_first_unintialized_flag = σ.g_save_first_unintialized_flag)
    (hmsg : σ'.g_first_unintialized_msg = σ.g_first_unintialized_msg)
    (hset : σ'.g_set_first_uninitialized_flag = σ.g_set_first_uninitialized_flag)
    (henqueued : ∀ w, σ'.enqueued w = σ.enqueued w)
    (hnoFatal : ∀ w msg, .work (.bgFatal msg) ∈ (σ'.workers w)._bg.sent →
      .work (.bgFatal msg) ∈ (σ.workers w)._bg.sent)
    (hrunning : σ'.exited = σ.exited) (hothers : ∀ t, t ≠ 0 → σ'.threads t = σ.threads t) :
    Agree calls σ' := by
  constructor
  · rw [hflag]
    exact h.flag
  · rw [hmsg, hset]
    exact h.first
  · intro w
    rw [henqueued]
    exact h.enqueued w
  · intro w msg hmem
    exact h.noFatal w msg (hnoFatal w msg hmem)
  · rw [hrunning]
    exact h.running
  · intro t ht
    rw [hothers t ht]
    exact h.others t ht

/-- One more call, which is not the first message nor an initialization. -/
theorem concat {op : LoggerOp} (h : Agree calls σ) (hinit : op.initializes = false)
    (hlogs : initialized calls = false → op.logs = none)
    (hflag : σ'.g_save_first_unintialized_flag = σ.g_save_first_unintialized_flag)
    (hmsg : σ'.g_first_unintialized_msg = σ.g_first_unintialized_msg)
    (hset : σ'.g_set_first_uninitialized_flag = σ.g_set_first_uninitialized_flag)
    (henqueued : ∀ w, σ'.enqueued w = σ.enqueued w ++ routed calls op w)
    (hnoFatal : ∀ w msg, .work (.bgFatal msg) ∈ (σ'.workers w)._bg.sent →
      .work (.bgFatal msg) ∈ (σ.workers w)._bg.sent)
    (hrunning : σ'.exited = σ.exited) (hothers : ∀ t, t ≠ 0 → σ'.threads t = σ.threads t) :
    Agree (calls ++ [op]) σ' := by
  constructor
  · rw [hflag, initialized_concat, hinit, Bool.or_false]
    exact h.flag
  · rw [initialized_concat, hinit, Bool.or_false]
    intro hnot
    rw [firstLog_concat, hlogs hnot, Option.or_none, hmsg, hset]
    exact h.first hnot
  · intro w
    rw [henqueued, messagesFor_concat, h.enqueued]
  · intro w msg hmem
    exact h.noFatal w msg (hnoFatal w msg hmem)
  · rw [hrunning]
    exact h.running
  · intro t ht
    rw [hothers t ht]
    exact h.others t ht

end Agree

/-- A callback that is not a fatal message makes none appear. -/
theorem noFatal_sendBg {σ : Process} {w w' : WorkerId} {task : Callback WorkerTask}
    (htask : ∀ msg, task ≠ .work (.bgFatal msg)) {msg : FatalMessage}
    (h : .work (.bgFatal msg) ∈ ((σ.sendBg w task).workers w')._bg.sent) :
    .work (.bgFatal msg) ∈ (σ.workers w')._bg.sent := by
  by_cases hw : w' = w
  · subst hw
    simp only [Process.sendBg, Process.setWorker, Function.update_self, Active.sent_send,
      List.mem_append, List.mem_singleton] at h
    rcases h with h | h
    · exact h
    · exact absurd h.symm (htask msg)
  · simpa [hw] using h

/-! ## The steps of the thread -/

section
variable {calls done : List LoggerOp} {σ σ' : Process}

theorem Agree.goto (h : Agree done σ) (pc : LoggerPc) : Agree done (σ.goto 0 pc) := by
  apply h.of_eq
  · rfl
  · rfl
  · rfl
  · intro w
    rfl
  · intro w msg hmem
    exact hmem
  · rfl
  · intro t ht
    simp [ht]

/-- The thread moves on within a call. -/
theorem Routed.goto_within {op : LoggerOp} {pc : LoggerPc} (hagree : Agree done σ)
    (hcalls : calls = done ++ op :: (σ.threads 0).program)
    (hseq : sequential (activeAfter done) (op :: (σ.threads 0).program) = true)
    (hptr : σ.g_logger_instance = activeAfter done) (hpc : pc.Within (activeAfter done) op) :
    Routed calls (σ.goto 0 pc) := by
  have hcalls' : calls = done ++ op :: ((σ.goto 0 pc).threads 0).program := by
    simpa using hcalls
  refine ⟨done, hagree.goto pc, .within hcalls' ?_ hptr ?_⟩
  · simpa using hseq
  · simpa using hpc

theorem Routed.enter {op : LoggerOp} {rest : List LoggerOp} {pc : LoggerPc}
    (hagree : Agree done σ) (hcalls : calls = done ++ op :: rest)
    (hseq : sequential (activeAfter done) (op :: rest) = true)
    (hptr : σ.g_logger_instance = activeAfter done) (hpc : pc.Within (activeAfter done) op) :
    Routed calls (σ.enter 0 rest pc) := by
  have hcalls' : calls = done ++ op :: ((σ.enter 0 rest pc).threads 0).program := by
    simpa using hcalls
  refine ⟨done, ?_, .within hcalls' ?_ hptr ?_⟩
  · apply hagree.of_eq
    · rfl
    · rfl
    · rfl
    · intro w
      rfl
    · intro w msg hmem
      exact hmem
    · rfl
    · intro t ht
      simp [ht]
  · simpa using hseq
  · simpa using hpc

/-- A worker changes, but for what was sent to it. -/
theorem Agree.setWorker (h : Agree done σ) {w : WorkerId} {k : Worker}
    (hsent : k._bg.sent = (σ.workers w)._bg.sent) : Agree done (σ.setWorker w k) := by
  have hsame : ∀ w', ((σ.setWorker w k).workers w')._bg.sent = (σ.workers w')._bg.sent := by
    intro w'
    by_cases hw : w' = w
    · subst hw
      simpa using hsent
    · simp [hw]
  apply h.of_eq
  · rfl
  · rfl
  · rfl
  · intro w'
    simp only [Process.enqueued, hsame]
  · intro w' msg hmem
    rwa [hsame] at hmem
  · rfl
  · intro t _
    rfl

/-- A callback that carries no message is sent. -/
theorem Agree.sendBg (h : Agree done σ) {w : WorkerId} {task : Callback WorkerTask}
    (hsame : ∀ w', (σ.sendBg w task).enqueued w' = σ.enqueued w')
    (htask : ∀ msg, task ≠ .work (.bgFatal msg)) : Agree done (σ.sendBg w task) := by
  apply h.of_eq
  · rfl
  · rfl
  · rfl
  · exact hsame
  · intro w' fatal hmem
    exact noFatal_sendBg htask hmem
  · rfl
  · intro t _
    rfl

/-- The thread begins a call. -/
theorem Routed.begin (hagree : Agree done σ) {op : LoggerOp} {rest : List LoggerOp}
    (hcalls : calls = done ++ op :: rest)
    (hseq : sequential (activeAfter done) (op :: rest) = true)
    (hptr : σ.g_logger_instance = activeAfter done) (hs : σ.begin 0 rest op = some σ') :
    Routed calls σ' := by
  cases op with
  | LOG msg =>
      cases hs
      exact .enter hagree hcalls hseq hptr .pushMessage
  | LOG_FATAL msg => cases hseq
  | initializeLogging bgworker =>
      cases hs
      have hallowed := hseq
      simp only [sequential, Bool.and_eq_true, Option.isNone_iff_eq_none] at hallowed
      obtain ⟨w, rfl⟩ := Option.isSome_iff_exists.mp hallowed.1.2
      exact .enter hagree hcalls hseq hptr (.lock hallowed.1.1)
  | shutDownLogging =>
      cases hs
      exact .enter hagree hcalls hseq hptr .shutDownLogging
  | destroy w =>
      simp only [Process.begin] at hs
      split at hs
      · cases hs
      · cases hs
        exact .enter (hagree.setWorker rfl) hcalls hseq hptr .forActiveOnly

/-- A message goes to a worker, and with it the call is over. -/
theorem Agree.send {op : LoggerOp} {w : WorkerId} {msg : LogMessage} (h : Agree done σ)
    (hinit : op.initializes = false) (hactive : activeAfter done ≠ none)
    (hrouted : ∀ w', routed done op w' = if w' = w then [msg] else []) (pc : LoggerPc) :
    Agree (done ++ [op]) ((σ.sendBg w (.work (.bgSave msg))).goto 0 pc) := by
  apply Agree.goto
  apply h.concat hinit
  · intro hnot
    rw [initialized_of_active hactive] at hnot
    cases hnot
  · rfl
  · rfl
  · rfl
  · intro w'
    rw [Process.enqueued_sendBg, hrouted]
    rfl
  · intro w' fatal hmem
    exact noFatal_sendBg (by simp) hmem
  · rfl
  · intro t _
    rfl

/-- The first message without a worker is kept, the others are dropped. -/
theorem Agree.setFirst {msg : LogMessage} (h : Agree done σ) (hactive : activeAfter done = none)
    (pc : LoggerPc) :
    Agree (done ++ [.LOG msg]) { σ.goto 0 pc with
      g_first_unintialized_msg :=
        if σ.g_set_first_uninitialized_flag then σ.g_first_unintialized_msg
        else some (notInitialized msg)
      g_set_first_uninitialized_flag := true } := by
  constructor
  · rw [initialized_concat]
    simpa [LoggerOp.initializes] using h.flag
  · rw [initialized_concat]
    intro hnot
    have hbefore : initialized done = false := by
      simpa [LoggerOp.initializes] using hnot
    obtain ⟨hmsg, hset⟩ := h.first hbefore
    rw [firstLog_concat]
    cases hlog : firstLog done with
    | none => simp [hset, hlog, LoggerOp.logs]
    | some first => simp [hset, hlog, hmsg]
  · intro w
    have hrouted : routed done (.LOG msg) w = [] := by
      simp [routed, hactive]
    rw [messagesFor_concat, hrouted, List.append_nil]
    exact h.enqueued w
  · exact h.noFatal
  · exact h.running
  · intro t ht
    simpa [ht] using h.others t ht

/-- The first initialization delivers what was kept. -/
theorem Agree.saveFirst {w : WorkerId} (h : Agree done σ) {msg : LogMessage}
    (hflag : σ.g_save_first_unintialized_flag = false)
    (hmsg : σ.g_first_unintialized_msg = some msg) (pc : LoggerPc) :
    Agree (done ++ [.initializeLogging (some w)])
      { (σ.sendBg w (.work (.bgSave msg))).goto 0 pc with
        g_first_unintialized_msg := none
        g_save_first_unintialized_flag := true } := by
  have hbefore : initialized done = false := h.flag ▸ hflag
  have hfirst : (firstLog done).map notInitialized = some msg := by
    rw [← (h.first hbefore).1, hmsg]
  constructor
  · rw [initialized_concat]
    simp [LoggerOp.initializes]
  · rw [initialized_concat]
    simp [LoggerOp.initializes]
  · intro w'
    have hrouted : routed done (.initializeLogging (some w)) w' =
        if w' = w then [msg] else [] := by
      simp [routed, hbefore, hfirst, eq_comm]
    rw [messagesFor_concat, hrouted, ← h.enqueued]
    exact Process.enqueued_sendBg σ w w' (.bgSave msg)
  · intro w' fatal hmem
    exact h.noFatal w' fatal (noFatal_sendBg (by simp) hmem)
  · exact h.running
  · intro t ht
    simpa [ht] using h.others t ht

/-- A later initialization, or one without a message before it, delivers nothing. -/
theorem Agree.noFirst {w : WorkerId} (h : Agree done σ)
    (hnone : σ.g_save_first_unintialized_flag = false → σ.g_first_unintialized_msg = none)
    (pc : LoggerPc) :
    Agree (done ++ [.initializeLogging (some w)])
      { σ.goto 0 pc with g_save_first_unintialized_flag := true } := by
  constructor
  · rw [initialized_concat]
    simp [LoggerOp.initializes]
  · rw [initialized_concat]
    simp [LoggerOp.initializes]
  · intro w'
    have hrouted : routed done (.initializeLogging (some w)) w' = [] := by
      rw [routed]
      split
      · next hfirst =>
          rw [← (h.first hfirst.2).1, hnone (h.flag.trans hfirst.2)]
          rfl
      · rfl
    rw [messagesFor_concat, hrouted, List.append_nil]
    exact h.enqueued w'
  · exact h.noFatal
  · exact h.running
  · intro t ht
    simpa [ht] using h.others t ht

/-- `shutDownLogging`, also on behalf of a destructor. -/
theorem Agree.reset {op : LoggerOp} (h : Agree done σ) (hinit : op.initializes = false)
    (hlogs : op.logs = none) (hrouted : ∀ w, routed done op w = []) (pc : LoggerPc) :
    Agree (done ++ [op]) { σ.goto 0 pc with g_logger_instance := none } := by
  apply h.concat hinit
  · intro _
    exact hlogs
  · rfl
  · rfl
  · rfl
  · intro w
    rw [hrouted, List.append_nil]
    rfl
  · intro w fatal hmem
    exact hmem
  · rfl
  · intro t ht
    simp [ht]

/-- What was done, with one more call over. -/
theorem Stage.finish {op : LoggerOp} {σ' : Process} (pc : LoggerPc)
    (hcalls : calls = done ++ op :: (σ.threads 0).program)
    (hseq : sequential (activeAfter done) (op :: (σ.threads 0).program) = true)
    (hthread : σ'.threads 0 = ⟨(σ.threads 0).program, pc⟩) (hpc : pc.between = true)
    (hptr : σ'.g_logger_instance = activeNext (activeAfter done) op) :
    Stage calls (done ++ [op]) σ' := by
  apply Stage.between
  · rw [hthread, List.append_assoc]
    exact hcalls
  · rw [hthread, activeAfter_concat]
    exact sequential_tail hseq
  · rw [activeAfter_concat]
    exact hptr
  · rw [hthread]
    exact hpc

/-- A step of the thread between two calls. -/
theorem Routed.step_between (hagree : Agree done σ)
    (hcalls : calls = done ++ (σ.threads 0).program)
    (hseq : sequential (activeAfter done) (σ.threads 0).program = true)
    (hptr : σ.g_logger_instance = activeAfter done) (hpc : (σ.threads 0).pc.between = true)
    (hs : σ.threadStep 0 = some σ') : Routed calls σ' := by
  have hstay {τ : Process} {pc : LoggerPc} (hτ : Agree done τ)
      (hthread : τ.threads 0 = ⟨(σ.threads 0).program, pc⟩) (hbetween : pc.between = true)
      (hinst : τ.g_logger_instance = σ.g_logger_instance) : Routed calls τ := by
    refine ⟨done, hτ, .between ?_ ?_ (hinst.trans hptr) ?_⟩
    · rw [hthread]
      exact hcalls
    · rw [hthread]
      exact hseq
    · rw [hthread]
      exact hbetween
  rw [Process.threadStep] at hs
  cases hcase : (σ.threads 0).pc with
  | idle =>
      simp only [hcase] at hs
      cases hprogram : (σ.threads 0).program with
      | nil => simp [hprogram] at hs
      | cons op rest =>
          simp only [hprogram] at hs
          rw [hprogram] at hcalls hseq
          exact .begin hagree hcalls hseq hptr hs
  | sendClear w =>
      simp only [hcase] at hs
      cases hs
      have hsend : Agree done (σ.sendBg w (.work .clearSinks)) := by
        apply hagree.sendBg
        · intro w'
          rw [Process.enqueued_sendBg]
          simp [WorkerTask.saved]
        · simp
      exact hstay (hsend.goto _) (by simp; rfl) rfl rfl
  | waitClear w =>
      simp only [hcase] at hs
      split at hs
      · cases hs
        exact hstay (hagree.goto _) (by simp; rfl) rfl rfl
      · cases hs
  | resetBg w =>
      simp only [hcase] at hs
      cases hs
      have hsend : Agree done (σ.sendBg w .done) := by
        apply hagree.sendBg
        · intro w'
          rw [Process.enqueued_sendBg_done]
        · simp
      exact hstay (hsend.goto _) (by simp; rfl) rfl rfl
  | joinBg w =>
      simp only [hcase] at hs
      split at hs
      · cases hs
        have hset : Agree done (σ.setWorker w { σ.workers w with destroyed := true }) :=
          hagree.setWorker rfl
        exact hstay (hset.goto _) (by simp; rfl) rfl rfl
      · cases hs
  | _ => simp [hcase, LoggerPc.between] at hpc

theorem Routed.mutex (h : Routed calls σ) (m : Option ThreadId) :
    Routed calls { σ with g_logging_init_mutex := m } := by
  obtain ⟨done, hagree, hstage⟩ := h
  refine ⟨done, ?_, ?_⟩
  · apply hagree.of_eq
    all_goals
      intros
      first | rfl | assumption
  · cases hstage with
    | between hcalls hseq hptr hpc => exact .between hcalls hseq hptr hpc
    | assigning hcalls hseq hpc hactive => exact .assigning hcalls hseq hpc hactive
    | within hcalls hseq hptr hpc => exact .within hcalls hseq hptr hpc

/-- A step of the thread within a call. -/
theorem Routed.step_within {op : LoggerOp} (hagree : Agree done σ)
    (hcalls : calls = done ++ op :: (σ.threads 0).program)
    (hseq : sequential (activeAfter done) (op :: (σ.threads 0).program) = true)
    (hptr : σ.g_logger_instance = activeAfter done)
    (hpc : (σ.threads 0).pc.Within (activeAfter done) op) (hs : σ.threadStep 0 = some σ') :
    Routed calls σ' := by
  have hstay {pc : LoggerPc} (h : pc.Within (activeAfter done) op) :
      Routed calls (σ.goto 0 pc) :=
    .goto_within hagree hcalls hseq hptr h
  rw [Process.threadStep] at hs
  generalize hcase : (σ.threads 0).pc = pc at hpc hs
  cases hpc with
  | pushMessage =>
      cases hs
      rw [hptr]
      split
      · next hactive => exact hstay (.save (Option.isSome_iff_ne_none.mp hactive))
      · next hactive => exact hstay (.setFirst (by simpa using hactive))
  | setFirst hactive =>
      cases hs
      refine ⟨_, hagree.setFirst hactive _, .finish .idle hcalls hseq ?_ rfl hptr⟩
      simp
      rfl
  | save hactive =>
      obtain ⟨w, hw, rfl⟩ := Option.map_eq_some_iff.mp hs
      exact hstay (.send (hptr.symm.trans hw))
  | @send msg w hactive =>
      cases hs
      refine ⟨_, hagree.send rfl (by simp [hactive]) ?_ _, .finish .idle hcalls hseq ?_ rfl hptr⟩
      · intro w'
        simp [routed, hactive, eq_comm]
      · simp
        rfl
  | lock hactive =>
      simp only at hs
      split at hs
      · cases hs
        exact (hstay (.initializeLogging hactive)).mutex (some 0)
      · cases hs
  | initializeLogging hactive =>
      simp only [hptr, hactive] at hs
      cases hs
      exact hstay (.saveFirst hactive)
  | @saveFirst w hactive =>
      have hnext : activeAfter (done ++ [.initializeLogging (some w)]) = some w := by
        rw [activeAfter_concat]
        rfl
      have htail : sequential (some w) (σ.threads 0).program = true := sequential_tail hseq
      simp only at hs
      split at hs
      · next msg hflag hmsg =>
          cases hs
          refine ⟨_, hagree.saveFirst hflag hmsg _, .assigning ?_ ?_ ?_ hnext⟩
          · simpa using hcalls
          · simpa [hnext] using htail
          · simp
      · next hnone =>
          cases hs
          refine ⟨_, hagree.noFirst ?_ _, .assigning ?_ ?_ ?_ hnext⟩
          · intro hflag
            cases hmsg : σ.g_first_unintialized_msg with
            | none => rfl
            | some msg => exact (hnone msg hflag hmsg).elim
          · simpa using hcalls
          · simpa [hnext] using htail
          · simp
  | shutDownLogging =>
      simp only at hs
      split at hs
      · cases hs
        refine ⟨_, hagree.reset rfl rfl ?_ _, .finish .idle hcalls hseq ?_ rfl rfl⟩
        · intro w
          rfl
        · simp
          rfl
      · cases hs
  | forActiveOnly =>
      cases hs
      rw [hptr]
      split
      · next hactive => exact hstay (.isActive (Option.isSome_iff_ne_none.mp hactive))
      · next hactive => exact hstay (.shutDown (.inl (by simpa using hactive)))
  | @isActive w hactive =>
      cases hs
      rw [hptr]
      obtain ⟨w', hw'⟩ := Option.ne_none_iff_exists'.mp hactive
      split
      · next hne =>
          apply hstay
          apply LoggerPc.Within.warn hw'
          intro heq
          exact hne (hw'.trans (congrArg some heq))
      · next heq => exact hstay (.shutDown (.inr (by simpa using heq)))
  | @shutDown w hactive =>
      simp only at hs
      split at hs
      · cases hs
        refine ⟨_, hagree.reset rfl rfl ?_ _, .finish (.sendClear w) hcalls hseq ?_ rfl ?_⟩
        · intro w'
          rcases hactive with hnone | hsome
          · simp [routed, hnone]
          · simp [routed, hsome, eq_comm]
        · simp
          rfl
        · rcases hactive with hnone | hsome
          · simp [activeNext, hnone]
          · simp [activeNext, hsome]
      · cases hs
  | warn h hne =>
      cases hs
      rw [hptr, h]
      exact hstay (.warnSave h hne)
  | @warnSave w w' h hne =>
      obtain ⟨w'', hw'', rfl⟩ := Option.map_eq_some_iff.mp hs
      rw [hptr, h] at hw''
      cases hw''
      exact hstay (.warnSend h hne)
  | @warnSend w w' h hne =>
      cases hs
      refine ⟨_, hagree.send rfl (by simp [h]) ?_ _, .finish (.sendClear w) hcalls hseq ?_ rfl ?_⟩
      · intro v
        by_cases hv : v = w'
        · simp [routed, h, hv, hne]
        · simp [routed, h, hv, Ne.symm hv]
      · simp
        rfl
      · simpa [activeNext, h, hne] using hptr

/-- The pointer is set. -/
theorem Routed.step_assigning {w : WorkerId} (hagree : Agree done σ)
    (hcalls : calls = done ++ (σ.threads 0).program)
    (hseq : sequential (activeAfter done) (σ.threads 0).program = true)
    (hpc : (σ.threads 0).pc = .setInstance w) (hactive : activeAfter done = some w)
    (hs : σ.threadStep 0 = some σ') : Routed calls σ' := by
  rw [Process.threadStep, hpc] at hs
  cases hs
  refine ⟨done, ?_, .between ?_ ?_ hactive.symm ?_⟩
  · apply (hagree.goto .idle).of_eq
    all_goals
      intros
      first | rfl | assumption
  · simpa using hcalls
  · simpa using hseq
  · simp [LoggerPc.between]

/-- A step of a worker, none of which has a fatal message. -/
theorem Routed.workerStep (h : Routed calls σ) {w : WorkerId}
    (hs : σ.workerStep w = some σ') : Routed calls σ' := by
  obtain ⟨done, hagree, hstage⟩ := h
  have hset {bg : Active WorkerTask} (hsent : bg.sent = (σ.workers w)._bg.sent) :
      Routed calls (σ.setWorker w { σ.workers w with _bg := bg }) := by
    refine ⟨done, hagree.setWorker hsent, ?_⟩
    cases hstage with
    | between hcalls hseq hptr hpc => exact .between hcalls hseq hptr hpc
    | assigning hcalls hseq hpc hactive => exact .assigning hcalls hseq hpc hactive
    | within hcalls hseq hptr hpc => exact .within hcalls hseq hptr hpc
  rw [Process.workerStep] at hs
  split at hs
  · split at hs
    · obtain ⟨bg, hbg, rfl⟩ := Option.map_eq_some_iff.mp hs
      exact hset (Active.sent_exit hbg)
    · obtain ⟨bg, hbg, rfl⟩ := Option.map_eq_some_iff.mp hs
      exact hset (Active.sent_pop hbg)
  · next msg hfunc =>
      exact absurd (Active.mem_sent_of_func hfunc) (hagree.noFatal w msg)
  · cases hs
    exact hset (Active.sent_ret _)

theorem Routed.step {a : LoggerAction} (h : Routed calls σ) (hs : σ.step a = some σ') :
    Routed calls σ' := by
  unfold Process.step at hs
  split at hs
  · cases hs
  · cases a with
    | worker w => exact h.workerStep hs
    | thread t =>
        obtain ⟨done, hagree, hstage⟩ := h
        by_cases ht : t = 0
        · subst ht
          cases hstage with
          | between hcalls hseq hptr hpc => exact .step_between hagree hcalls hseq hptr hpc hs
          | assigning hcalls hseq hpc hactive =>
              exact .step_assigning hagree hcalls hseq hpc hactive hs
          | within hcalls hseq hptr hpc => exact .step_within hagree hcalls hseq hptr hpc hs
        · simp only [Process.threadStep, hagree.others t ht] at hs
          cases hs

theorem routed_start (hseq : sequential none calls = true) :
    Routed calls (.start fun t => if t = 0 then calls else []) := by
  refine ⟨[], ?_, .between rfl hseq rfl rfl⟩
  constructor
  · rfl
  · intro _
    exact ⟨rfl, rfl⟩
  · intro w
    rfl
  · intro w msg hmem
    cases hmem
  · rfl
  · intro t ht
    simp [Process.start, ht]

end

/-- Whenever a call of the thread has returned, the active worker and the messages enqueued
on each worker are those that the calls made so far say, whatever the workers do meanwhile.
The one kept for the first initialization has the notice before its text, and the one that
the destruction of another worker leaves is a warning. -/
theorem routed_once {calls : List LoggerOp} (hseq : sequential none calls = true) {σ : Process}
    (hσ : (sequentialRun calls).Reachable σ) (hidle : (σ.threads 0).pc = .idle) :
    (∃ done, calls = done ++ (σ.threads 0).program ∧ σ.exited = false ∧
      σ.g_logger_instance = activeAfter done ∧ ∀ w, σ.enqueued w = messagesFor done w) ∧
      (∀ msg, notInitialized msg =
        { msg with _message := "LOGGER NOT INITIALIZED:\n\t\t" ++ msg._message }) ∧
      ignoredShutDown._level = G3LOG_WARNING := by
  have hrouted : Routed calls σ := by
    apply hσ.invariant
    · intro s hs
      cases hs
      exact routed_start hseq
    · intro s a s' _ _ hs hstep
      exact hs.step hstep
  refine ⟨?_, notInitialized_eq, ignoredShutDown_level⟩
  obtain ⟨done, hagree, hstage⟩ := hrouted
  cases hstage with
  | between hcalls hseq' hptr hpc => exact ⟨done, hcalls, hagree.running, hptr, hagree.enqueued⟩
  | assigning hcalls hseq' hpc hactive =>
      rw [hidle] at hpc
      cases hpc
  | within hcalls hseq' hptr hpc =>
      rw [hidle] at hpc
      cases hpc

/-- A message before the initialization, one after it, the destruction of another worker, and
a message after the shutdown. -/
def someCalls : List LoggerOp :=
  [.LOG greeting, .initializeLogging (some 1), .LOG greeting, .destroy 2, .shutDownLogging,
    .LOG greeting]

theorem routed_once_someCalls :
    ∃ σ, (sequentialRun someCalls).Reachable σ ∧ (σ.threads 0).program = [] ∧
      σ.g_logger_instance = none ∧ σ.enqueued 2 = [] ∧
      (σ.enqueued 1).map (fun msg => (msg._message, msg._level)) =
        [("LOGGER NOT INITIALIZED:\n\t\thello", G3LOG_INFO), ("hello", G3LOG_INFO),
          (ignoredShutDown._message, G3LOG_WARNING)] := by
  have hrun : ((sequentialRun someCalls).runBy (fun _ _ => true)
      (.start fun t => if t = 0 then someCalls else [])
      (List.replicate 19 (LoggerAction.thread 0) ++ List.replicate 2 (LoggerAction.worker 2) ++
        List.replicate 2 (LoggerAction.thread 0) ++ List.replicate 3 (LoggerAction.worker 2) ++
        List.replicate 6 (LoggerAction.thread 0))).any
      (fun σ => decide ((σ.threads 0).pc = .idle) && (σ.threads 0).program.isEmpty) = true := by
    decide +kernel
  obtain ⟨σ, hσ, hend⟩ := System.exists_reachableBy rfl hrun
  simp only [Bool.and_eq_true, decide_eq_true_eq, List.isEmpty_iff] at hend
  obtain ⟨hidle, hprogram⟩ := hend
  have hseq : sequential none someCalls = true := by decide
  obtain ⟨⟨done, hdone, -, hptr, henqueued⟩, hnotice, hlevel⟩ :=
    routed_once hseq hσ.reachable hidle
  rw [hprogram, List.append_nil] at hdone
  subst hdone
  refine ⟨σ, hσ.reachable, hprogram, ?_, ?_, ?_⟩
  · rw [hptr]
    decide
  · rw [henqueued]
    decide +kernel
  · have hlist : messagesFor someCalls 1 =
        [notInitialized greeting, greeting, ignoredShutDown] := by
      decide +kernel
    rw [henqueued, hlist]
    simp only [List.map_cons, List.map_nil, hnotice, hlevel]
    decide +kernel

end G3log
