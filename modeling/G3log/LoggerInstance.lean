import G3log.LogWorker

/-!
# The global logger instance

`LOG` finds its worker through the global pointer `g_logger_instance`, which it reads
twice: once to see whether there is a logger, and once to use it. The init mutex is
for those that write the pointer only. Here any number of threads log, initialize, shut
down and destroy any number of workers; what the workers do with their messages is left
out, but for a fatal one, which resets the pointer and ends the process.

## Main definitions

* `Process`, `Process.step` -- the pointer, the workers and the threads around it.
* `Process.invokes` -- the pointer on which a thread calls `save` or `fatal` next.
* `orderly` -- the steps that do not pull the worker from under a log call.
* `invokes_alive` -- under this no log call reaches a missing worker.
-/

namespace G3log

open Transition

abbrev WorkerId := ℕ
abbrev ThreadId := ℕ

/-- What a thread does with the logger. -/
inductive LoggerOp
  | LOG (msg : LogMessage)
  /-- `LOG(FATAL)` or `CHECK`. -/
  | LOG_FATAL (msg : FatalMessage)
  | initializeLogging (bgworker : Option WorkerId)
  | shutDownLogging
  /-- `~LogWorker` -/
  | destroy (w : WorkerId)
  deriving DecidableEq

/-- Where a thread is. The warning that the destructor of a worker may log is a log call
inside of it, so a log call knows which destructor to go on with, if any. -/
inductive LoggerPc
  | idle
  /-- At the test in `pushMessageToLogger`. -/
  | pushMessageToLogger (msg : LogMessage) (destroys : Option WorkerId)
  /-- At `g_set_first_uninitialized_flag`. -/
  | setFirst (msg : LogMessage) (destroys : Option WorkerId)
  /-- The test found a logger; `g_logger_instance` is read again next. -/
  | save (msg : LogMessage) (destroys : Option WorkerId)
  /-- In `LogWorker::save`. -/
  | send (w : WorkerId) (msg : LogMessage) (destroys : Option WorkerId)
  /-- At the test in `pushFatalMessageToLogger`. -/
  | pushFatalMessageToLogger (msg : FatalMessage)
  | exitWithDefaultSignalHandler
  /-- The test found a logger; `g_logger_instance` is read again next. -/
  | fatal (msg : FatalMessage)
  /-- In `LogWorker::fatal`. -/
  | sendFatal (w : WorkerId) (msg : FatalMessage)
  | sleep
  /-- At the lock of `initializeLogging`. -/
  | lock (bgworker : Option WorkerId)
  /-- At the test in `initializeLogging`. -/
  | initializeLogging (bgworker : Option WorkerId)
  /-- At `g_save_first_unintialized_flag`. -/
  | saveFirst (bgworker : WorkerId)
  | setInstance (bgworker : WorkerId)
  | shutDownLogging (destroys : Option WorkerId)
  /-- At the two reads in `shutDownLoggingForActiveOnly`. -/
  | shutDownLoggingForActiveOnly (active : WorkerId)
  | isActive (active : WorkerId)
  /-- In `~LogWorker`, past `shutDownLoggingForActiveOnly`. -/
  | sendClear (w : WorkerId)
  | waitClear (w : WorkerId)
  | resetBg (w : WorkerId)
  | joinBg (w : WorkerId)
  deriving DecidableEq

structure LoggerThread where
  program : List LoggerOp
  pc : LoggerPc

structure Worker where
  _bg : Active WorkerTask
  /-- `bgFatal` is past `shutDownLogging`. -/
  shutDown : Bool
  /-- `~LogWorker` has begun. -/
  destroying : Bool
  /-- `~LogWorker` has completed. -/
  destroyed : Bool

structure Process where
  g_logger_instance : Option WorkerId
  g_logging_init_mutex : Option ThreadId
  g_first_unintialized_msg : Option LogMessage
  g_set_first_uninitialized_flag : Bool
  g_save_first_unintialized_flag : Bool
  workers : WorkerId → Worker
  threads : ThreadId → LoggerThread
  exited : Bool

/-- The process as it starts, with the programs of its threads. -/
def Process.start (programs : ThreadId → List LoggerOp) : Process where
  g_logger_instance := none
  g_logging_init_mutex := none
  g_first_unintialized_msg := none
  g_set_first_uninitialized_flag := false
  g_save_first_unintialized_flag := false
  workers := fun _ => ⟨.createActive, false, false, false⟩
  threads := fun t => ⟨programs t, .idle⟩
  exited := false

/-- The warning of `shutDownLoggingForActiveOnly`. Its time and thread do not matter. -/
def ignoredShutDown : LogMessage where
  _logDetailsToStringFunc := .DefaultLogDetailsToString
  _timestamp := 0
  _call_thread_id := 0
  _file := "g3log.cpp"
  _file_path := "g3log.cpp"
  _line := 138
  _function := "shutDownLoggingForActiveOnly"
  _level := G3LOG_WARNING
  _expression := ""
  _message := "\n\t\tAttempted to shut down logging, but the ID of the " ++
    "Logger is not the one that is active." ++
    "\n\t\tHaving multiple instances of the g3::LogWorker is " ++
    "likely a BUG" ++
    "\n\t\tEither way, this call to shutDownLogging was ignored" ++
    "\n\t\tTry g3::internal::shutDownLogging() instead"

/-- What is kept of the first message without a logger. -/
def notInitialized (msg : LogMessage) : LogMessage :=
  { msg with _message := "LOGGER NOT INITIALIZED:\n\t\t" ++ msg._message }

/-- Nothing but the text of the message changes, and the notice stands before it. -/
theorem notInitialized_eq (msg : LogMessage) : notInitialized msg =
    { msg with _message := "LOGGER NOT INITIALIZED:\n\t\t" ++ msg._message } := rfl

theorem ignoredShutDown_level : ignoredShutDown._level = G3LOG_WARNING := rfl

/-- Where a thread goes after a log call or after `shutDownLogging`. -/
def LoggerPc.resume : Option WorkerId → LoggerPc
  | none => .idle
  | some w => .sendClear w

namespace Process

@[simp] def goto (t : ThreadId) (pc : LoggerPc) (σ : Process) : Process :=
  { σ with threads := Function.update σ.threads t { σ.threads t with pc := pc } }

@[simp] def setWorker (w : WorkerId) (k : Worker) (σ : Process) : Process :=
  { σ with workers := Function.update σ.workers w k }

@[simp] def sendBg (w : WorkerId) (task : Callback WorkerTask) (σ : Process) : Process :=
  σ.setWorker w { σ.workers w with _bg := (σ.workers w)._bg.send task }

@[simp] def enter (t : ThreadId) (rest : List LoggerOp) (pc : LoggerPc) (σ : Process) : Process :=
  { σ with threads := Function.update σ.threads t ⟨rest, pc⟩ }

/-- Begin an operation. -/
def begin (t : ThreadId) (rest : List LoggerOp) (σ : Process) : LoggerOp → Option Process
  | .LOG msg => some (σ.enter t rest (.pushMessageToLogger msg none))
  | .LOG_FATAL msg => some (σ.enter t rest (.pushFatalMessageToLogger msg))
  | .initializeLogging bgworker => some (σ.enter t rest (.lock bgworker))
  | .shutDownLogging => some (σ.enter t rest (.shutDownLogging none))
  | .destroy w =>
      if (σ.workers w).destroying then none
      else some ((σ.setWorker w { σ.workers w with destroying := true }).enter t rest
        (.shutDownLoggingForActiveOnly w))

def threadStep (t : ThreadId) (σ : Process) : Option Process :=
  match (σ.threads t).pc with
  | .idle =>
      match (σ.threads t).program with
      | [] => none
      | op :: rest => σ.begin t rest op
  | .pushMessageToLogger msg destroys =>
      some (σ.goto t (if σ.g_logger_instance.isSome then .save msg destroys
        else .setFirst msg destroys))
  | .setFirst msg destroys =>
      some { σ.goto t (.resume destroys) with
        g_first_unintialized_msg :=
          if σ.g_set_first_uninitialized_flag then σ.g_first_unintialized_msg
          else some (notInitialized msg)
        g_set_first_uninitialized_flag := true }
  | .save msg destroys =>
      σ.g_logger_instance.map fun w => σ.goto t (.send w msg destroys)
  | .send w msg destroys => some ((σ.sendBg w (.work (.bgSave msg))).goto t (.resume destroys))
  | .pushFatalMessageToLogger msg =>
      some (σ.goto t (if σ.g_logger_instance.isSome then .fatal msg
        else .exitWithDefaultSignalHandler))
  | .exitWithDefaultSignalHandler => some { σ with exited := true }
  | .fatal msg => σ.g_logger_instance.map fun w => σ.goto t (.sendFatal w msg)
  | .sendFatal w msg => some ((σ.sendBg w (.work (.bgFatal msg))).goto t .sleep)
  | .sleep => none
  | .lock bgworker =>
      if σ.g_logging_init_mutex.isNone then
        some { σ.goto t (.initializeLogging bgworker) with g_logging_init_mutex := some t }
      else none
  | .initializeLogging bgworker =>
      match σ.g_logger_instance, bgworker with
      | none, some w => some (σ.goto t (.saveFirst w))
      -- `std::exit`, with nothing initialized.
      | _, _ => some { σ with exited := true }
  | .saveFirst w =>
      match σ.g_save_first_unintialized_flag, σ.g_first_unintialized_msg with
      | false, some msg =>
          some { (σ.sendBg w (.work (.bgSave msg))).goto t (.setInstance w) with
            g_first_unintialized_msg := none
            g_save_first_unintialized_flag := true }
      | _, _ => some { σ.goto t (.setInstance w) with g_save_first_unintialized_flag := true }
  | .setInstance w =>
      some { σ.goto t .idle with g_logger_instance := some w, g_logging_init_mutex := none }
  | .shutDownLogging destroys =>
      if σ.g_logging_init_mutex.isNone then
        some { σ.goto t (.resume destroys) with g_logger_instance := none }
      else none
  | .shutDownLoggingForActiveOnly w =>
      some (σ.goto t (if σ.g_logger_instance.isSome then .isActive w
        else .shutDownLogging (some w)))
  | .isActive w =>
      some (σ.goto t (if σ.g_logger_instance ≠ some w then .pushMessageToLogger ignoredShutDown w
        else .shutDownLogging (some w)))
  | .sendClear w => some ((σ.sendBg w (.work .clearSinks)).goto t (.waitClear w))
  | .waitClear w =>
      if .work .clearSinks ∈ (σ.workers w)._bg.executed then some (σ.goto t (.resetBg w)) else none
  | .resetBg w => some ((σ.sendBg w .done).goto t (.joinBg w))
  | .joinBg w =>
      if (σ.workers w)._bg.finished then
        some ((σ.setWorker w { σ.workers w with destroyed := true }).goto t .idle)
      else none

/-- The background thread of a worker. Other callbacks than a fatal one are one step. -/
def workerStep (w : WorkerId) (σ : Process) : Option Process :=
  match (σ.workers w)._bg.func with
  | none =>
      if (σ.workers w)._bg.done_ then
        (σ.workers w)._bg.exit.map fun bg => σ.setWorker w { σ.workers w with _bg := bg }
      else (σ.workers w)._bg.pop.map fun bg => σ.setWorker w { σ.workers w with _bg := bg }
  | some (.work (.bgFatal _)) =>
      if (σ.workers w).shutDown then some { σ with exited := true }
      else if σ.g_logging_init_mutex.isNone then
        some { σ.setWorker w { σ.workers w with shutDown := true } with g_logger_instance := none }
      else none
  | some _ => some (σ.setWorker w { σ.workers w with _bg := (σ.workers w)._bg.ret })

end Process

inductive LoggerAction
  | thread (t : ThreadId)
  | worker (w : WorkerId)
  deriving DecidableEq

def Process.step (σ : Process) (a : LoggerAction) : Option Process :=
  if σ.exited then none
  else match a with
    | .thread t => σ.threadStep t
    | .worker w => σ.workerStep w

/-- Any threads with any programs. -/
def loggers : System Process LoggerAction where
  Start := fun σ => ∃ programs, σ = .start programs
  step := Process.step

/-! ## What a step can do -/

/-- A step of a thread. -/
inductive ThreadStep (t : ThreadId) (σ : Process) : Process → Prop
  | begin {op : LoggerOp} {rest : List LoggerOp} {pc : LoggerPc} (hpc : (σ.threads t).pc = .idle)
      (hprogram : (σ.threads t).program = op :: rest)
      (hop : (∃ msg, pc = .pushMessageToLogger msg none) ∨
        (∃ msg, pc = .pushFatalMessageToLogger msg) ∨ pc = .shutDownLogging none) :
      ThreadStep t σ (σ.enter t rest pc)
  | lock {bgworker : Option WorkerId} {rest : List LoggerOp} (hpc : (σ.threads t).pc = .idle)
      (hprogram : (σ.threads t).program = .initializeLogging bgworker :: rest) :
      ThreadStep t σ (σ.enter t rest (.lock bgworker))
  | destroy {w : WorkerId} {rest : List LoggerOp} (hpc : (σ.threads t).pc = .idle)
      (hprogram : (σ.threads t).program = .destroy w :: rest)
      (hfirst : (σ.workers w).destroying = false) :
      ThreadStep t σ ((σ.setWorker w { σ.workers w with destroying := true }).enter t rest
        (.shutDownLoggingForActiveOnly w))
  | found {msg : LogMessage} {destroys : Option WorkerId}
      (hpc : (σ.threads t).pc = .pushMessageToLogger msg destroys)
      (hptr : σ.g_logger_instance ≠ none) : ThreadStep t σ (σ.goto t (.save msg destroys))
  | notFound {msg : LogMessage} {destroys : Option WorkerId}
      (hpc : (σ.threads t).pc = .pushMessageToLogger msg destroys)
      (hptr : σ.g_logger_instance = none) : ThreadStep t σ (σ.goto t (.setFirst msg destroys))
  | setFirst {msg : LogMessage} {destroys : Option WorkerId} {first : Option LogMessage}
      (hpc : (σ.threads t).pc = .setFirst msg destroys) :
      ThreadStep t σ { σ.goto t (.resume destroys) with
        g_first_unintialized_msg := first, g_set_first_uninitialized_flag := true }
  | save {msg : LogMessage} {destroys : Option WorkerId} {w : WorkerId}
      (hpc : (σ.threads t).pc = .save msg destroys) (hptr : σ.g_logger_instance = some w) :
      ThreadStep t σ (σ.goto t (.send w msg destroys))
  | send {msg : LogMessage} {destroys : Option WorkerId} {w : WorkerId}
      (hpc : (σ.threads t).pc = .send w msg destroys) :
      ThreadStep t σ ((σ.sendBg w (.work (.bgSave msg))).goto t (.resume destroys))
  | foundFatal {msg : FatalMessage} (hpc : (σ.threads t).pc = .pushFatalMessageToLogger msg)
      (hptr : σ.g_logger_instance ≠ none) : ThreadStep t σ (σ.goto t (.fatal msg))
  | notFoundFatal {msg : FatalMessage} (hpc : (σ.threads t).pc = .pushFatalMessageToLogger msg)
      (hptr : σ.g_logger_instance = none) :
      ThreadStep t σ (σ.goto t .exitWithDefaultSignalHandler)
  | fatal {msg : FatalMessage} {w : WorkerId} (hpc : (σ.threads t).pc = .fatal msg)
      (hptr : σ.g_logger_instance = some w) : ThreadStep t σ (σ.goto t (.sendFatal w msg))
  | sendFatal {msg : FatalMessage} {w : WorkerId} (hpc : (σ.threads t).pc = .sendFatal w msg) :
      ThreadStep t σ ((σ.sendBg w (.work (.bgFatal msg))).goto t .sleep)
  | exit (hpc : (σ.threads t).pc = .exitWithDefaultSignalHandler ∨
      ∃ bgworker, (σ.threads t).pc = .initializeLogging bgworker) :
      ThreadStep t σ { σ with exited := true }
  | acquire {bgworker : Option WorkerId} (hpc : (σ.threads t).pc = .lock bgworker)
      (hmutex : σ.g_logging_init_mutex = none) :
      ThreadStep t σ
        { σ.goto t (.initializeLogging bgworker) with g_logging_init_mutex := some t }
  | initializeLogging {w : WorkerId} (hpc : (σ.threads t).pc = .initializeLogging (some w))
      (hptr : σ.g_logger_instance = none) : ThreadStep t σ (σ.goto t (.saveFirst w))
  | saveFirst {w : WorkerId} {msg : LogMessage} (hpc : (σ.threads t).pc = .saveFirst w) :
      ThreadStep t σ { (σ.sendBg w (.work (.bgSave msg))).goto t (.setInstance w) with
        g_first_unintialized_msg := none
        g_save_first_unintialized_flag := true }
  | noFirst {w : WorkerId} (hpc : (σ.threads t).pc = .saveFirst w) :
      ThreadStep t σ { σ.goto t (.setInstance w) with g_save_first_unintialized_flag := true }
  | setInstance {w : WorkerId} (hpc : (σ.threads t).pc = .setInstance w) :
      ThreadStep t σ
        { σ.goto t .idle with g_logger_instance := some w, g_logging_init_mutex := none }
  | shutDownLogging {destroys : Option WorkerId}
      (hpc : (σ.threads t).pc = .shutDownLogging destroys)
      (hmutex : σ.g_logging_init_mutex = none) :
      ThreadStep t σ { σ.goto t (.resume destroys) with g_logger_instance := none }
  | readInstance {w : WorkerId} {pc : LoggerPc}
      (hpc : (σ.threads t).pc = .shutDownLoggingForActiveOnly w)
      (hnext : pc = .isActive w ∨ pc = .shutDownLogging (some w)) : ThreadStep t σ (σ.goto t pc)
  | otherActive {w : WorkerId} (hpc : (σ.threads t).pc = .isActive w)
      (hptr : σ.g_logger_instance ≠ some w) :
      ThreadStep t σ (σ.goto t (.pushMessageToLogger ignoredShutDown (some w)))
  | active {w : WorkerId} (hpc : (σ.threads t).pc = .isActive w)
      (hptr : σ.g_logger_instance = some w) :
      ThreadStep t σ (σ.goto t (.shutDownLogging (some w)))
  | sendClear {w : WorkerId} (hpc : (σ.threads t).pc = .sendClear w) :
      ThreadStep t σ ((σ.sendBg w (.work .clearSinks)).goto t (.waitClear w))
  | waitClear {w : WorkerId} (hpc : (σ.threads t).pc = .waitClear w) :
      ThreadStep t σ (σ.goto t (.resetBg w))
  | resetBg {w : WorkerId} (hpc : (σ.threads t).pc = .resetBg w) :
      ThreadStep t σ ((σ.sendBg w .done).goto t (.joinBg w))
  | joinBg {w : WorkerId} (hpc : (σ.threads t).pc = .joinBg w) :
      ThreadStep t σ ((σ.setWorker w { σ.workers w with destroyed := true }).goto t .idle)

theorem threadStep_cases {t : ThreadId} {σ σ' : Process} (h : σ.threadStep t = some σ') :
    ThreadStep t σ σ' := by
  unfold Process.threadStep at h
  split at h
  · next hpc =>
      split at h
      · simp at h
      · next op rest hprogram =>
          cases op with
          | LOG msg => exact Option.some.inj h ▸ .begin hpc hprogram (.inl ⟨msg, rfl⟩)
          | LOG_FATAL msg => exact Option.some.inj h ▸ .begin hpc hprogram (.inr (.inl ⟨msg, rfl⟩))
          | initializeLogging bgworker => exact Option.some.inj h ▸ .lock hpc hprogram
          | shutDownLogging => exact Option.some.inj h ▸ .begin hpc hprogram (.inr (.inr rfl))
          | destroy w =>
              simp only [Process.begin] at h
              split at h
              · simp at h
              · next hfirst =>
                  exact Option.some.inj h ▸
                    .destroy hpc hprogram (Bool.eq_false_of_not_eq_true hfirst)
  · next hpc =>
      rw [← Option.some.inj h]
      split
      · next hptr => exact .found hpc (Option.isSome_iff_ne_none.mp hptr)
      · next hptr => exact .notFound hpc (by simpa using hptr)
  · next hpc => exact Option.some.inj h ▸ .setFirst hpc
  · next hpc =>
      obtain ⟨w, hptr, rfl⟩ := Option.map_eq_some_iff.mp h
      exact .save hpc hptr
  · next hpc => exact Option.some.inj h ▸ .send hpc
  · next hpc =>
      rw [← Option.some.inj h]
      split
      · next hptr => exact .foundFatal hpc (Option.isSome_iff_ne_none.mp hptr)
      · next hptr => exact .notFoundFatal hpc (by simpa using hptr)
  · next hpc => exact Option.some.inj h ▸ .exit (.inl hpc)
  · next hpc =>
      obtain ⟨w, hptr, rfl⟩ := Option.map_eq_some_iff.mp h
      exact .fatal hpc hptr
  · next hpc => exact Option.some.inj h ▸ .sendFatal hpc
  · simp at h
  · next hpc =>
      split at h
      · next hmutex => exact Option.some.inj h ▸ .acquire hpc (by simpa using hmutex)
      · simp at h
  · next hpc =>
      split at h
      · next hptr => exact Option.some.inj h ▸ .initializeLogging hpc hptr
      · exact Option.some.inj h ▸ .exit (.inr ⟨_, hpc⟩)
  · next hpc =>
      split at h
      · exact Option.some.inj h ▸ .saveFirst hpc
      · exact Option.some.inj h ▸ .noFirst hpc
  · next hpc => exact Option.some.inj h ▸ .setInstance hpc
  · next hpc =>
      split at h
      · next hmutex => exact Option.some.inj h ▸ .shutDownLogging hpc (by simpa using hmutex)
      · simp at h
  · next hpc =>
      rw [← Option.some.inj h]
      refine .readInstance hpc ?_
      split
      · exact .inl rfl
      · exact .inr rfl
  · next hpc =>
      rw [← Option.some.inj h]
      split
      · next hptr => exact .otherActive hpc hptr
      · next hptr => exact .active hpc (by simpa using hptr)
  · next hpc => exact Option.some.inj h ▸ .sendClear hpc
  · next hpc =>
      split at h
      · exact Option.some.inj h ▸ .waitClear hpc
      · simp at h
  · next hpc => exact Option.some.inj h ▸ .resetBg hpc
  · next hpc =>
      split at h
      · exact Option.some.inj h ▸ .joinBg hpc
      · simp at h

/-- A step of the background thread of a worker. -/
inductive BackgroundStep (w : WorkerId) (σ : Process) : Process → Prop
  | proceed (bg : Active WorkerTask) :
      BackgroundStep w σ (σ.setWorker w { σ.workers w with _bg := bg })
  | shutDownLogging {msg : FatalMessage}
      (hfunc : (σ.workers w)._bg.func = some (.work (.bgFatal msg)))
      (hfirst : (σ.workers w).shutDown = false) :
      BackgroundStep w σ
        { σ.setWorker w { σ.workers w with shutDown := true } with g_logger_instance := none }
  | exit : BackgroundStep w σ { σ with exited := true }

theorem backgroundStep_cases {w : WorkerId} {σ σ' : Process} (h : σ.workerStep w = some σ') :
    BackgroundStep w σ σ' := by
  unfold Process.workerStep at h
  split at h
  · split at h
    · obtain ⟨bg, -, rfl⟩ := Option.map_eq_some_iff.mp h
      exact .proceed bg
    · obtain ⟨bg, -, rfl⟩ := Option.map_eq_some_iff.mp h
      exact .proceed bg
  · next hfunc =>
      split at h
      · exact Option.some.inj h ▸ .exit
      · next hfirst =>
          split at h
          · exact Option.some.inj h ▸ .shutDownLogging hfunc (Bool.eq_false_of_not_eq_true hfirst)
          · simp at h
  · exact Option.some.inj h ▸ .proceed _

/-! ## No log call on a missing worker -/

namespace LoggerPc

/-- Between the test for a logger and its use. -/
def uses : LoggerPc → Bool
  | .save _ _ | .fatal _ => true
  | _ => false

/-- The worker that the thread is destroying, once `shutDownLoggingForActiveOnly` has
looked for it in the global pointer. -/
def pastShutDown : LoggerPc → Option WorkerId
  | .pushMessageToLogger _ destroys | .setFirst _ destroys | .save _ destroys
  | .send _ _ destroys => destroys
  | .sendClear w | .waitClear w | .resetBg w | .joinBg w => some w
  | _ => none

/-- The worker that the thread is destroying. -/
def destroys : LoggerPc → Option WorkerId
  | .shutDownLogging destroys => destroys
  | .shutDownLoggingForActiveOnly w | .isActive w => some w
  | pc => pc.pastShutDown

/-- The worker that the thread initializes logging with. -/
def initializes : LoggerPc → Option WorkerId
  | .lock bgworker | .initializeLogging bgworker => bgworker
  | .saveFirst w | .setInstance w => some w
  | _ => none

theorem destroys_of_pastShutDown {pc : LoggerPc} {w : WorkerId}
    (h : pc.pastShutDown = some w) : pc.destroys = some w := by
  cases pc <;> simp_all [pastShutDown, destroys]

end LoggerPc

namespace Process

/-- The pointer on which the thread calls `save` or `fatal` with its next step. -/
def invokes (σ : Process) (t : ThreadId) : Option (Option WorkerId) :=
  match (σ.threads t).pc with
  | .save _ _ | .fatal _ => some σ.g_logger_instance
  | .saveFirst w =>
      if !σ.g_save_first_unintialized_flag && σ.g_first_unintialized_msg.isSome then some (some w)
      else none
  | _ => none

/-- The step takes the worker away from `g_logger_instance`. -/
def resets (σ : Process) : LoggerAction → Bool
  | .thread t =>
      match (σ.threads t).pc with
      | .shutDownLogging _ => true
      | _ => false
  | .worker w =>
      match (σ.workers w)._bg.func with
      | some (.work (.bgFatal _)) => !(σ.workers w).shutDown
      | _ => false

end Process

/-- The pointer is reset while no thread is between its test for a logger and the use, and
a worker that logging is initialized with is not destroyed before that is done. -/
structure orderly (σ : Process) (a : LoggerAction) : Prop where
  resets : σ.resets a = true → ∀ t, (σ.threads t).pc.uses = false
  outlives : ∀ t w rest, a = .thread t → (σ.threads t).pc = .idle →
    (σ.threads t).program = .initializeLogging (some w) :: rest → (σ.workers w).destroying = false
  destroy : ∀ t w rest, a = .thread t → (σ.threads t).pc = .idle →
    (σ.threads t).program = .destroy w :: rest → ∀ t', (σ.threads t').pc.initializes ≠ some w

/-- The pointer points to a live worker while it is used, and not to one that is past
`shutDownLoggingForActiveOnly` in its destructor. -/
structure Alive (σ : Process) : Prop where
  uses : ∀ t, (σ.threads t).pc.uses = true → σ.g_logger_instance ≠ none
  past : ∀ t w, (σ.threads t).pc.pastShutDown = some w → σ.g_logger_instance ≠ some w
  destroyed : ∀ w, (σ.workers w).destroyed = true →
    (σ.workers w).destroying = true ∧ σ.g_logger_instance ≠ some w
  destroys : ∀ t w, (σ.threads t).pc.destroys = some w → (σ.workers w).destroying = true
  initializes : ∀ t w, (σ.threads t).pc.initializes = some w → (σ.workers w).destroying = false

namespace Alive
variable {σ σ' : Process}

/-- A thread moves on, and the pointer stays. -/
theorem move (h : Alive σ) {t : ThreadId} {k : LoggerThread}
    (hthreads : σ'.threads = Function.update σ.threads t k)
    (hptr : σ'.g_logger_instance = σ.g_logger_instance)
    (hworkers : ∀ w, (σ'.workers w).destroying = (σ.workers w).destroying ∧
      (σ'.workers w).destroyed = (σ.workers w).destroyed)
    (huses : k.pc.uses = true → σ.g_logger_instance ≠ none)
    (hpast : ∀ w, k.pc.pastShutDown = some w →
      (σ.threads t).pc.pastShutDown = some w ∨ σ.g_logger_instance ≠ some w)
    (hdestroys : ∀ w, k.pc.destroys = some w → (σ.threads t).pc.destroys = some w)
    (hinit : ∀ w, k.pc.initializes = some w →
      (σ.threads t).pc.initializes = some w ∨ (σ.workers w).destroying = false) : Alive σ' := by
  refine ⟨fun t' => ?_, fun t' w => ?_, fun w => ?_, fun t' w => ?_, fun t' w => ?_⟩
  · rw [hthreads, hptr]
    by_cases ht : t' = t
    · subst ht; simpa using huses
    · simpa [ht] using h.uses t'
  · rw [hthreads, hptr]
    by_cases ht : t' = t
    · subst ht
      rw [Function.update_self]
      exact fun hw => (hpast w hw).elim (h.past t' w) id
    · simpa [ht] using h.past t' w
  · rw [hptr, (hworkers w).1, (hworkers w).2]
    exact h.destroyed w
  · rw [hthreads, (hworkers w).1]
    by_cases ht : t' = t
    · subst ht
      rw [Function.update_self]
      exact fun hw => h.destroys t' w (hdestroys w hw)
    · simpa [ht] using h.destroys t' w
  · rw [hthreads, (hworkers w).1]
    by_cases ht : t' = t
    · subst ht
      rw [Function.update_self]
      exact fun hw => (hinit w hw).elim (h.initializes t' w) id
    · simpa [ht] using h.initializes t' w

/-- A thread moves on with what it is doing. -/
theorem keep (h : Alive σ) {t : ThreadId} {k : LoggerThread}
    (hthreads : σ'.threads = Function.update σ.threads t k)
    (hptr : σ'.g_logger_instance = σ.g_logger_instance)
    (hworkers : ∀ w, (σ'.workers w).destroying = (σ.workers w).destroying ∧
      (σ'.workers w).destroyed = (σ.workers w).destroyed)
    (huses : k.pc.uses = true → σ.g_logger_instance ≠ none)
    (hpast : ∀ w, k.pc.pastShutDown = some w → (σ.threads t).pc.pastShutDown = some w)
    (hdestroys : ∀ w, k.pc.destroys = some w → (σ.threads t).pc.destroys = some w)
    (hinit : ∀ w, k.pc.initializes = some w → (σ.threads t).pc.initializes = some w) : Alive σ' :=
  h.move hthreads hptr hworkers huses (fun w hw => .inl (hpast w hw)) hdestroys
    fun w hw => .inl (hinit w hw)

/-- The pointer is reset while nobody uses it. -/
theorem reset (h : Alive σ) (hptr : σ'.g_logger_instance = none)
    (hworkers : ∀ w, (σ'.workers w).destroying = (σ.workers w).destroying ∧
      (σ'.workers w).destroyed = (σ.workers w).destroyed)
    (huses : ∀ t, (σ'.threads t).pc.uses = false)
    (hdestroys : ∀ t w, (σ'.threads t).pc.destroys = some w → (σ.threads t).pc.destroys = some w)
    (hinit : ∀ t w, (σ'.threads t).pc.initializes = some w →
      (σ.threads t).pc.initializes = some w) : Alive σ' where
  uses := fun t ht => by simp [huses t] at ht
  past := fun t w _ => by simp [hptr]
  destroyed := by
    intro w hw
    rw [(hworkers w).2] at hw
    rw [(hworkers w).1]
    exact ⟨(h.destroyed w hw).1, by simp [hptr]⟩
  destroys := by
    intro t w hw
    rw [(hworkers w).1]
    exact h.destroys t w (hdestroys t w hw)
  initializes := by
    intro t w hw
    rw [(hworkers w).1]
    exact h.initializes t w (hinit t w hw)

theorem workers_sendBg {σ : Process} {w : WorkerId} {task : Callback WorkerTask} (w' : WorkerId) :
    ((σ.sendBg w task).workers w').destroying = (σ.workers w').destroying ∧
      ((σ.sendBg w task).workers w').destroyed = (σ.workers w').destroyed := by
  by_cases hw : w' = w
  · subst hw; simp
  · simp [hw]

theorem threadStep (h : Alive σ) {t : ThreadId} (hok : orderly σ (.thread t))
    (hs : ThreadStep t σ σ') : Alive σ' := by
  cases hs with
  | begin hpc hprogram hop =>
      refine h.keep rfl rfl (fun _ => ⟨rfl, rfl⟩) ?_ ?_ ?_ ?_
      all_goals
        rcases hop with ⟨msg, rfl⟩ | ⟨msg, rfl⟩ | rfl <;>
          simp [LoggerPc.uses, LoggerPc.pastShutDown, LoggerPc.destroys, LoggerPc.initializes]
  | @lock bgworker rest hpc hprogram =>
      refine h.move rfl rfl (fun _ => ⟨rfl, rfl⟩) ?_ ?_ ?_ fun w hw => .inr ?_
      · simp [LoggerPc.uses]
      · simp [LoggerPc.pastShutDown]
      · simp [LoggerPc.destroys, LoggerPc.pastShutDown]
      · obtain rfl : bgworker = some w := hw
        exact hok.outlives t w rest rfl hpc hprogram
  | @destroy w rest hpc hprogram hfirst =>
      have hlives (w' : WorkerId) : (Function.update σ.workers w
          { σ.workers w with destroying := true } w').destroyed = (σ.workers w').destroyed ∧
          ((Function.update σ.workers w { σ.workers w with destroying := true } w').destroying =
            true ↔ (σ.workers w').destroying = true ∨ w' = w) := by
        by_cases hw : w' = w
        · subst hw; simp
        · simp [hw]
      refine ⟨fun t' => ?_, fun t' w' => ?_, fun w' hw' => ?_, fun t' w' hw' => ?_,
        fun t' w' hw' => ?_⟩
      · by_cases ht : t' = t
        · subst ht; simp [LoggerPc.uses]
        · simpa [ht] using h.uses t'
      · by_cases ht : t' = t
        · subst ht; simp [LoggerPc.pastShutDown]
        · simpa [ht] using h.past t' w'
      · obtain ⟨hdestroying, hptr⟩ := h.destroyed w' ((hlives w').1 ▸ hw')
        exact ⟨(hlives w').2.mpr (.inl hdestroying), hptr⟩
      · refine (hlives w').2.mpr ?_
        by_cases ht : t' = t
        · subst ht
          exact .inr (by simpa [LoggerPc.destroys] using hw'.symm)
        · exact .inl (h.destroys t' w' (by simpa [ht] using hw'))
      · have hold : (σ.threads t').pc.initializes = some w' := by
          by_cases ht : t' = t
          · subst ht; simp [LoggerPc.initializes] at hw'
          · simpa [ht] using hw'
        have hne : w' ≠ w := by
          rintro rfl
          exact hok.destroy t w' rest rfl hpc hprogram t' hold
        simpa [hne] using h.initializes t' w' hold
  | found hpc hptr | foundFatal hpc hptr =>
      refine h.keep rfl rfl (fun _ => ⟨rfl, rfl⟩) (fun _ => hptr) ?_ ?_ ?_
      all_goals simp [hpc, LoggerPc.pastShutDown, LoggerPc.destroys, LoggerPc.initializes]
  | otherActive hpc hptr =>
      refine h.move rfl rfl (fun _ => ⟨rfl, rfl⟩) ?_ (fun w hw => .inr ?_) ?_ ?_
      · simp [LoggerPc.uses]
      · obtain rfl := Option.some.inj hw
        exact hptr
      all_goals simp [hpc, LoggerPc.pastShutDown, LoggerPc.destroys, LoggerPc.initializes]
  | readInstance hpc hnext =>
      refine h.keep rfl rfl (fun _ => ⟨rfl, rfl⟩) ?_ ?_ ?_ ?_
      all_goals
        rcases hnext with rfl | rfl <;>
          simp [hpc, LoggerPc.uses, LoggerPc.pastShutDown, LoggerPc.destroys,
            LoggerPc.initializes]
  | notFound hpc | save hpc | notFoundFatal hpc | fatal hpc | waitClear hpc
  | initializeLogging hpc | active hpc | acquire hpc | noFirst hpc =>
      refine h.keep rfl rfl (fun _ => ⟨rfl, rfl⟩) ?_ ?_ ?_ ?_
      all_goals simp [hpc, LoggerPc.uses, LoggerPc.pastShutDown, LoggerPc.destroys,
        LoggerPc.initializes]
  | @setFirst _ destroys _ hpc =>
      refine h.keep rfl rfl (fun _ => ⟨rfl, rfl⟩) ?_ ?_ ?_ ?_
      all_goals
        cases destroys <;> simp [hpc, LoggerPc.resume, LoggerPc.uses, LoggerPc.pastShutDown,
          LoggerPc.destroys, LoggerPc.initializes]
  | @send _ destroys _ hpc =>
      refine h.keep rfl rfl workers_sendBg ?_ ?_ ?_ ?_
      all_goals
        cases destroys <;> simp [hpc, LoggerPc.resume, LoggerPc.uses, LoggerPc.pastShutDown,
          LoggerPc.destroys, LoggerPc.initializes]
  | sendFatal hpc | saveFirst hpc | sendClear hpc | resetBg hpc =>
      refine h.keep rfl rfl workers_sendBg ?_ ?_ ?_ ?_
      all_goals simp [hpc, LoggerPc.uses, LoggerPc.pastShutDown, LoggerPc.destroys,
        LoggerPc.initializes]
  | exit => exact ⟨h.uses, h.past, h.destroyed, h.destroys, h.initializes⟩
  | @setInstance w hpc =>
      have hlive := h.initializes t w (by rw [hpc]; rfl)
      have hne {w' : WorkerId} (hw' : (σ.workers w').destroying = true) : some w ≠ some w' := by
        rintro ⟨rfl⟩
        simp [hlive] at hw'
      refine ⟨nofun, fun t' w' hw' => ?_, fun w' hw' => ?_, fun t' w' hw' => ?_,
        fun t' w' hw' => ?_⟩
      · by_cases ht : t' = t
        · subst ht; simp [LoggerPc.pastShutDown] at hw'
        · exact hne (h.destroys t' w' (LoggerPc.destroys_of_pastShutDown (by simpa [ht] using hw')))
      · exact ⟨(h.destroyed w' hw').1, hne (h.destroyed w' hw').1⟩
      · by_cases ht : t' = t
        · subst ht; simp [LoggerPc.destroys, LoggerPc.pastShutDown] at hw'
        · exact h.destroys t' w' (by simpa [ht] using hw')
      · by_cases ht : t' = t
        · subst ht; simp [LoggerPc.initializes] at hw'
        · exact h.initializes t' w' (by simpa [ht] using hw')
  | @shutDownLogging destroys hpc hmutex =>
      have hnone := hok.resets (by simp [Process.resets, hpc])
      refine h.reset rfl (fun _ => ⟨rfl, rfl⟩) (fun t' => ?_) (fun t' w' hw' => ?_)
        fun t' w' hw' => ?_
      all_goals by_cases ht : t' = t
      · subst ht
        cases destroys <;> simp [LoggerPc.resume, LoggerPc.uses]
      · simpa [ht] using hnone t'
      · subst ht
        cases destroys <;> simp_all [LoggerPc.resume, LoggerPc.destroys, LoggerPc.pastShutDown]
      · simpa [ht] using hw'
      · subst ht
        cases destroys <;> simp [LoggerPc.resume, LoggerPc.initializes] at hw'
      · simpa [ht] using hw'
  | @joinBg w hpc =>
      have hpast := h.past t w (by rw [hpc]; rfl)
      have hdestroying := h.destroys t w (by rw [hpc]; rfl)
      have hsame (w' : WorkerId) : (Function.update σ.workers w
          { σ.workers w with destroyed := true } w').destroying = (σ.workers w').destroying := by
        by_cases hw : w' = w
        · subst hw; simp
        · simp [hw]
      refine ⟨fun t' ht' => ?_, fun t' w' hw' => ?_, fun w' hw' => ?_, fun t' w' hw' => ?_,
        fun t' w' hw' => ?_⟩
      · by_cases ht : t' = t
        · subst ht; simp [LoggerPc.uses] at ht'
        · exact h.uses t' (by simpa [ht] using ht')
      · by_cases ht : t' = t
        · subst ht; simp [LoggerPc.pastShutDown] at hw'
        · exact h.past t' w' (by simpa [ht] using hw')
      · by_cases hw : w' = w
        · subst hw
          exact ⟨by simpa using hdestroying, hpast⟩
        · simpa [hw] using h.destroyed w' (by simpa [hw] using hw')
      · refine (hsame w').trans ?_
        by_cases ht : t' = t
        · subst ht; simp [LoggerPc.destroys, LoggerPc.pastShutDown] at hw'
        · exact h.destroys t' w' (by simpa [ht] using hw')
      · refine (hsame w').trans ?_
        by_cases ht : t' = t
        · subst ht; simp [LoggerPc.initializes] at hw'
        · exact h.initializes t' w' (by simpa [ht] using hw')

theorem workerStep (h : Alive σ) {w : WorkerId} (hok : orderly σ (.worker w))
    (hs : BackgroundStep w σ σ') : Alive σ' := by
  have hsame {k : Worker} (hk : k.destroying = (σ.workers w).destroying)
      (hk' : k.destroyed = (σ.workers w).destroyed) (w' : WorkerId) :
      (Function.update σ.workers w k w').destroying = (σ.workers w').destroying ∧
        (Function.update σ.workers w k w').destroyed = (σ.workers w').destroyed := by
    by_cases hw : w' = w
    · subst hw; simpa using ⟨hk, hk'⟩
    · simp [hw]
  cases hs with
  | proceed bg =>
      exact h.keep (t := 0) (Function.update_eq_self 0 σ.threads).symm rfl (hsame rfl rfl)
        (h.uses 0) (fun _ => id) (fun _ => id) fun _ => id
  | shutDownLogging hfunc hfirst =>
      have hnone := hok.resets (by simp [Process.resets, hfunc, hfirst])
      exact h.reset rfl (hsame rfl rfl) hnone (fun _ _ => id) fun _ _ => id
  | exit => exact ⟨h.uses, h.past, h.destroyed, h.destroys, h.initializes⟩

end Alive

theorem alive {σ : Process} (h : loggers.ReachableBy orderly σ) : Alive σ := by
  refine h.invariant ?_ fun σ a σ' _ hok hσ hs => ?_
  · rintro _ ⟨programs, rfl⟩
    exact ⟨nofun, nofun, nofun, nofun, nofun⟩
  · simp only [loggers, Process.step] at hs
    split at hs
    · simp at hs
    · cases a with
      | thread t => exact hσ.threadStep hok (threadStep_cases hs)
      | worker w => exact hσ.workerStep hok (backgroundStep_cases hs)

/-- No log call reaches a missing worker, in the runs where the pointer is not reset under
a thread that has found a logger, and where a worker is not destroyed before or while
logging is initialized with it: what `save` and `fatal` are called on is a worker whose
destructor has not completed. -/
theorem invokes_alive {σ : Process} (h : loggers.ReachableBy orderly σ) {t : ThreadId}
    {ptr : Option WorkerId} (hptr : σ.invokes t = some ptr) :
    ∃ w, ptr = some w ∧ (σ.workers w).destroyed = false := by
  have halive := alive h
  have hlive {w : WorkerId} (hw : σ.g_logger_instance = some w) :
      (σ.workers w).destroyed = false := by
    by_contra hdestroyed
    exact (halive.destroyed w (Bool.eq_true_of_not_eq_false hdestroyed)).2 hw
  have huses (hpc : (σ.threads t).pc.uses = true) :
      ∃ w, σ.g_logger_instance = some w ∧ (σ.workers w).destroyed = false := by
    obtain ⟨w, hw⟩ := Option.ne_none_iff_exists'.mp (halive.uses t hpc)
    exact ⟨w, hw, hlive hw⟩
  unfold Process.invokes at hptr
  split at hptr
  · next hpc => exact Option.some.inj hptr ▸ huses (by rw [hpc]; rfl)
  · next hpc => exact Option.some.inj hptr ▸ huses (by rw [hpc]; rfl)
  · next w hpc =>
      split at hptr
      · refine ⟨w, (Option.some.inj hptr).symm, ?_⟩
        by_contra hdestroyed
        have hdestroying := (halive.destroyed w (Bool.eq_true_of_not_eq_false hdestroyed)).1
        simp [halive.initializes t w (by rw [hpc]; rfl)] at hdestroying
      · simp at hptr
  · simp at hptr

/-- A test for the step to be orderly that allows for no reset and no destructor. -/
def steady (σ : Process) (a : LoggerAction) : Bool :=
  !σ.resets a &&
    match a with
    | .thread t =>
        match (σ.threads t).program with
        | .initializeLogging (some w) :: _ => !(σ.workers w).destroying
        | .destroy _ :: _ => false
        | _ => true
    | .worker _ => true

theorem orderly_of_steady {σ : Process} {a : LoggerAction} (h : steady σ a = true) :
    orderly σ a where
  resets := by
    intro hresets
    simp [steady, hresets] at h
  outlives := by
    rintro t w rest rfl - hprogram
    simp only [steady, hprogram, Bool.and_eq_true, Bool.not_eq_true'] at h
    exact h.2
  destroy := by
    rintro t w rest rfl - hprogram
    simp [steady, hprogram] at h

/-- One thread initializes logging, and shuts it down by destroying the worker. Another
one logs. -/
def racers (ops : List LoggerOp) : ThreadId → List LoggerOp
  | 0 => [.LOG greeting]
  | 1 => .initializeLogging (some 0) :: ops
  | _ => []

/-- Logging is initialized, and the other thread has found the logger. -/
def foundRun : List LoggerAction := List.replicate 5 (.thread 1) ++ List.replicate 2 (.thread 0)

theorem invokes_alive_found : ∃ σ : Process, σ.invokes 0 = some (some 0) ∧
    ∃ w, some 0 = some w ∧ (σ.workers w).destroyed = false := by
  have hrun : (loggers.runBy steady (.start (racers [])) foundRun).any
      (fun σ => decide (σ.invokes 0 = some (some 0))) = true := by
    decide +kernel
  have hstart : loggers.Start (.start (racers [])) := ⟨racers [], rfl⟩
  obtain ⟨σ, hσ, hp⟩ := System.exists_reachableBy hstart hrun
  have hinvokes := of_decide_eq_true hp
  exact ⟨σ, hinvokes, invokes_alive (hσ.mono fun _ _ => orderly_of_steady) hinvokes⟩

/-- The destructor of the worker resets the pointer between test and use, so `save` is
called on a null pointer. -/
theorem invokes_null : ¬ ∀ σ : Process, loggers.Reachable σ → ∀ t ptr, σ.invokes t = some ptr →
    ∃ w, ptr = some w ∧ (σ.workers w).destroyed = false := by
  intro h
  have hrun : (loggers.runBy (fun _ _ => true) (.start (racers [.destroy 0]))
      (foundRun ++ List.replicate 4 (.thread 1))).any
      (fun σ => decide (σ.invokes 0 = some none)) = true := by
    decide +kernel
  have hstart : loggers.Start (.start (racers [.destroy 0])) := ⟨racers [.destroy 0], rfl⟩
  obtain ⟨σ, hσ, hp⟩ := System.exists_reachableBy hstart hrun
  obtain ⟨w, hw, -⟩ := h σ hσ.reachable 0 none (of_decide_eq_true hp)
  simp at hw

end G3log
