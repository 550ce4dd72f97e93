import G3log.Sink
import G3log.Lib.Transition

/-!
# The log worker and its threads

One `LogWorker` with the threads around it: clients that run finite programs of
operations, the worker's background thread, the background thread of each sink, and on
top of any of them the handling of a fatal event, from `signalHandler` or `LOG(FATAL)`
to the sleep that the caller of `pushFatalMessageToLogger` never leaves. Each read or
write of shared data is one step. A mutex that is held for one such access is part of the
step here; `G3log.Mutexes` takes the access apart, since a signal may stop a thread in it.

An access to a queue whose active object has been deleted is undefined behaviour. The
model lets the callback go to the dead queue, where nothing is executed any more. A
null pointer that is dereferenced is a `SIGSEGV` on that thread.

## Main definitions

* `State`, `init` -- the worker, the sinks, the clients and the fatal events.
* `State.workerStep`, `State.clientStep`, `State.sinkStep`, `State.fatalStep` -- what
  each kind of thread does next.
* `step`, `logWorker` -- the step of an action, and the transition system.
-/

namespace G3log

open Transition

/-- Work for the background thread of the worker. -/
inductive WorkerTask
  | bgSave (msg : LogMessage)
  | bgFatal (msg : FatalMessage)
  /-- `bg_addsink_call` -/
  | addSink (s : SinkId)
  /-- `bg_clear_sink_call` -/
  | clearSinks
  deriving DecidableEq

instance : LawfulBEq (Callback WorkerTask) := inferInstance

/-- Where the background thread of the worker is. -/
inductive WorkerPc
  /-- At the head of the loop in `Active::run`. -/
  | run
  /-- In the loop over the sinks, at index `i`. -/
  | bgSave (msg : LogMessage) (i : ℕ)
  | addSink (s : SinkId)
  /-- At the start of `bgFatal`. -/
  | shutDownLogging (msg : FatalMessage)
  /-- In the loop over the sinks, at index `i`. -/
  | bgFatal (msg : FatalMessage) (i : ℕ)
  /-- In `_sinks.clear()`, for `~LogWorker` or for a fatal message. -/
  | clear (fatal : Option FatalMessage)
  /-- In `~Sink`, called from `_sinks.clear()`. -/
  | join (s : SinkId) (fatal : Option FatalMessage)
  | exitWithDefaultSignalHandler (msg : FatalMessage)
  /-- In the callback that `~Active` sends. -/
  | done
  deriving DecidableEq

/-- Who releases a reference to a sink. -/
inductive Role
  | addSink
  | call
  | destructor
  deriving DecidableEq

/-- One operation of a client. -/
inductive Op (T R : Type)
  | save (msg : LogMessage)
  | addSink (real_sink : T) (call : LogMessage → T → T)
  | call (s : SinkId) (func : T → T × R)
  | fatal (msg : FatalMessage)
  /-- `~LogWorker` -/
  | destroy

/-- Where a client is. -/
inductive ClientPc (T R : Type)
  | idle
  /-- In `save`, with `_bg` read. -/
  | save (msg : LogMessage)
  /-- In `addSink`: the sink is made, `_bg` is read next. -/
  | addSink (s : SinkId)
  | sendAdd (s : SinkId)
  /-- At `token_done.wait()`. -/
  | waitAdd (s : SinkId)
  /-- In `SinkHandle::call`, with the sink locked. -/
  | async (s : SinkId) (id : CallId) (func : T → T × R)
  /-- About to drop a reference. -/
  | release (s : SinkId) (role : Role)
  /-- In `~Sink`, called for the last reference. -/
  | join (s : SinkId) (role : Role)
  /-- In `~LogWorker`. -/
  | sendClear
  /-- At `token_cleared.wait()`. -/
  | waitClear
  | resetBg
  | joinBg
  /-- The destructor of `_impl._sinks`. -/
  | destroySinks

structure Client (T R : Type) where
  program : List (Op T R)
  pc : ClientPc T R
  /-- How many calls through sink handles it has made. -/
  calls : ℕ

inductive Thread
  | client (c : ClientId)
  | worker
  | sink (s : SinkId)
  deriving DecidableEq, Repr

/-- How far a thread is with a fatal event. -/
inductive FatalPc
  | none
  | signalHandler (msg : FatalMessage)
  /-- At the test in `pushFatalMessageToLogger`. -/
  | isLoggingInitialized (msg : FatalMessage)
  | exitWithDefaultSignalHandler (msg : FatalMessage)
  /-- The test found a logger; `g_logger_instance` is read again next. -/
  | fatal (msg : FatalMessage)
  /-- In `LogWorker::fatal`: `_impl._bg` is read next. -/
  | readBg (msg : FatalMessage)
  | send (msg : FatalMessage)
  /-- In one of the loops that sleep for ever. -/
  | sleep
  deriving DecidableEq

structure State (T R : Type) where
  _sinks : List SinkId
  _bg : Active WorkerTask
  pc : WorkerPc
  /-- `_impl._bg` is not null. -/
  bgPtr : Bool
  /-- `~Active` of the worker is through. -/
  bgDeleted : Bool
  /-- `~LogWorker` has begun. -/
  destroying : Bool
  /-- `~LogWorker` has returned. -/
  destroyed : Bool
  sinks : SinkId → Sink T R
  clients : ClientId → Client T R
  futures : CallId → Future R
  fatal : Thread → FatalPc
  firstExit : ℕ
  /-- `g_logger_instance` points to the worker. -/
  g_logger_instance : Bool
  /-- `exitWithDefaultSignalHandler` has been called. -/
  exited : Bool

/-- The worker as it is made, perhaps initialized for logging, and the clients. -/
def init {T R : Type} (programs : ClientId → List (Op T R)) (active : Bool) : State T R where
  _sinks := []
  _bg := .createActive
  pc := .run
  bgPtr := true
  bgDeleted := false
  destroying := false
  destroyed := false
  sinks := fun _ => .unmade
  clients := fun c => ⟨programs c, .idle, 0⟩
  futures := fun _ => .unset
  fatal := fun _ => .none
  firstExit := 0
  g_logger_instance := active
  exited := false

namespace State
variable {T R : Type}

/-- There is a `shared_ptr` to the sink: the strong count is positive. -/
def strong (σ : State T R) (s : SinkId) : Bool :=
  decide (s ∈ σ._sinks) || decide (σ.sinks s).temps.Nonempty

@[simp] def setSink (s : SinkId) (k : Sink T R) (σ : State T R) : State T R :=
  { σ with sinks := Function.update σ.sinks s k }

@[simp] def setClient (c : ClientId) (k : Client T R) (σ : State T R) : State T R :=
  { σ with clients := Function.update σ.clients c k }

@[simp] def goto (c : ClientId) (pc : ClientPc T R) (σ : State T R) : State T R :=
  σ.setClient c { σ.clients c with pc := pc }

@[simp] def setFatal (t : Thread) (pc : FatalPc) (σ : State T R) : State T R :=
  { σ with fatal := Function.update σ.fatal t pc }

@[simp] def sendBg (task : Callback WorkerTask) (σ : State T R) : State T R :=
  { σ with _bg := σ._bg.send task }

/-- The end of `~Sink`: the real sink is destroyed, and so are the calls still queued. -/
def destroySink (s : SinkId) (σ : State T R) : State T R :=
  { σ with
    sinks := Function.update σ.sinks s { σ.sinks s with _real_sink := none }
    futures := fun id =>
      if id ∈ (σ.sinks s).abandoned then .broken_promise else σ.futures id }

/-! ## The background thread of the worker -/

/-- A callback of the worker returns. -/
def ret (σ : State T R) : State T R := { σ with _bg := σ._bg.ret, pc := .run }

/-- Where a callback starts. -/
def enter : Callback WorkerTask → WorkerPc
  | .work (.bgSave msg) => .bgSave msg 0
  | .work (.bgFatal msg) => .shutDownLogging msg
  | .work (.addSink s) => .addSink s
  | .work .clearSinks => .clear none
  | .done => .done

def workerStep (σ : State T R) : Option (State T R) :=
  match σ.pc with
  | .run =>
      if σ._bg.done_ then σ._bg.exit.map fun bg => { σ with _bg := bg }
      else σ._bg.pop.map fun bg => { σ with _bg := bg, pc := (bg.func.map enter).getD .run }
  | .bgSave msg i =>
      match σ._sinks[i]? with
      | some s => some { σ.setSink s ((σ.sinks s).send msg) with pc := .bgSave msg (i + 1) }
      | none => some σ.ret
  | .addSink s => some { σ.ret with _sinks := σ._sinks ++ [s] }
  | .shutDownLogging msg => some { σ with g_logger_instance := false, pc := .bgFatal msg 0 }
  | .bgFatal msg i =>
      match σ._sinks[i]? with
      | some s =>
          some { σ.setSink s ((σ.sinks s).send msg.exitNotice) with pc := .bgFatal msg (i + 1) }
      | none => some { σ with pc := .clear (some msg) }
  | .clear fatal =>
      match σ._sinks with
      | s :: rest =>
          let σ := { σ with _sinks := rest }
          if σ.strong s then some σ
          -- The last reference: `~Sink` runs here.
          else some { σ.setSink s (σ.sinks s).close with pc := .join s fatal }
      | [] =>
          match fatal with
          | none => some σ.ret
          | some msg => some { σ with pc := .exitWithDefaultSignalHandler msg }
  | .join s fatal =>
      if (σ.sinks s)._bg.finished then some { σ.destroySink s with pc := .clear fatal } else none
  | .exitWithDefaultSignalHandler _ => some { σ with exited := true }
  | .done => some σ.ret

/-! ## Clients -/

/-- What a client does once it has dropped a reference to a sink: `addSink` returns a
handle, `call` a future, and the destructor goes on with the vector. -/
def afterRelease (c : ClientId) (s : SinkId) (role : Role) (σ : State T R) : State T R :=
  (σ.setSink s { σ.sinks s with handle := (σ.sinks s).handle || decide (role = .addSink) }).goto c
    (if role = .destructor then .destroySinks else .idle)

/-- `sink` goes out of scope. -/
def release (c : ClientId) (s : SinkId) (role : Role) (σ : State T R) : State T R :=
  let σ := σ.setSink s { σ.sinks s with temps := (σ.sinks s).temps.erase c }
  if σ.strong s then σ.afterRelease c s role
  else (σ.setSink s (σ.sinks s).close).goto c (.join s role)

/-- The first step of an operation. The address of a new sink is the allocator's choice. -/
def start (c : ClientId) (fresh : SinkId) (k : Client T R) (σ : State T R) :
    Op T R → Option (State T R)
  | .save msg => if σ.bgPtr then some (σ.setClient c { k with pc := .save msg }) else none
  | .addSink real_sink call =>
      if (σ.sinks fresh).created then none
      else some ((σ.setSink fresh (.make real_sink call c)).setClient c
        { k with pc := .addSink fresh })
  | .call s func =>
      let id : CallId := ⟨c, k.calls⟩
      if !(σ.sinks s).handle then none
      else if σ.strong s then
        some ((σ.setSink s { σ.sinks s with temps := insert c (σ.sinks s).temps }).setClient c
          { k with pc := .async s id func, calls := k.calls + 1 })
      else
        some { σ.setClient c { k with calls := k.calls + 1 } with
          futures := Function.update σ.futures id .bad_weak_ptr }
  | .fatal msg => some ((σ.setClient c k).setFatal (.client c) (.isLoggingInitialized msg))
  | .destroy =>
      if σ.destroying then none
      else some { σ.setClient c { k with pc := .sendClear } with
        destroying := true
        g_logger_instance := false }

def clientStep (c : ClientId) (fresh : SinkId) (σ : State T R) : Option (State T R) :=
  match (σ.clients c).pc with
  | .idle =>
      match (σ.clients c).program with
      | [] => none
      | op :: rest => σ.start c fresh { σ.clients c with program := rest } op
  | .save msg => some ((σ.sendBg (.work (.bgSave msg))).goto c .idle)
  | .addSink s => some (σ.goto c (if σ.bgPtr then .sendAdd s else .release s .addSink))
  | .sendAdd s => some ((σ.sendBg (.work (.addSink s))).goto c (.waitAdd s))
  | .waitAdd s =>
      if .work (.addSink s) ∈ σ._bg.executed ∨ σ.bgDeleted then
        some (σ.goto c (.release s .addSink))
      else none
  | .async s id func =>
      some { (σ.setSink s ((σ.sinks s).async id func)).goto c (.release s .call) with
        futures := Function.update σ.futures id .pending }
  | .release s role => some (σ.release c s role)
  | .join s role =>
      if (σ.sinks s)._bg.finished then some ((σ.destroySink s).afterRelease c s role) else none
  | .sendClear => some ((σ.sendBg (.work .clearSinks)).goto c .waitClear)
  | .waitClear =>
      if .work .clearSinks ∈ σ._bg.executed then some (σ.goto c .resetBg) else none
  | .resetBg => some { (σ.sendBg .done).goto c .joinBg with bgPtr := false }
  | .joinBg =>
      if σ._bg.finished then some { σ.goto c .destroySinks with bgDeleted := true } else none
  | .destroySinks =>
      match σ._sinks with
      | s :: rest =>
          let σ := { σ with _sinks := rest }
          if σ.strong s then some σ
          else some ((σ.setSink s (σ.sinks s).close).goto c (.join s .destructor))
      | [] => some { σ.goto c .idle with destroyed := true }

/-! ## Sinks and fatal events -/

/-- A turn of a sink's thread. The result of a call goes into its future. -/
def sinkStep (s : SinkId) (σ : State T R) : Option (State T R) :=
  if (σ.sinks s).created then
    (σ.sinks s).turn.map fun (k, out) =>
      { σ.setSink s k with
        futures := match out with
          | some (id, r) => Function.update σ.futures id (.value r)
          | none => σ.futures }
  else none

/-- The next step of a thread that handles a fatal event. -/
def fatalStep (t : Thread) (σ : State T R) : Option (State T R) :=
  match σ.fatal t with
  | .none => none
  | .signalHandler msg =>
      -- `shouldDoExit`: only one signal is allowed past this point.
      some { σ.setFatal t (if σ.firstExit = 0 then .isLoggingInitialized msg else .sleep) with
        firstExit := σ.firstExit + 1 }
  | .isLoggingInitialized msg =>
      some (σ.setFatal t
        (if σ.g_logger_instance then .fatal msg else .exitWithDefaultSignalHandler msg))
  | .exitWithDefaultSignalHandler _ => some { σ with exited := true }
  | .fatal msg => if σ.g_logger_instance then some (σ.setFatal t (.readBg msg)) else none
  | .readBg msg => if σ.bgPtr then some (σ.setFatal t (.send msg)) else none
  | .send msg => some ((σ.sendBg (.work (.bgFatal msg))).setFatal t .sleep)
  | .sleep => none

/-- The thread is there to be hit by a signal. -/
def alive (σ : State T R) : Thread → Bool
  | .client _ => true
  | .worker => !σ._bg.finished
  | .sink s => (σ.sinks s).created && !(σ.sinks s)._bg.finished

/-- The next step of the thread dereferences a null pointer. -/
def derefsNull (σ : State T R) (t : Thread) : Bool :=
  match σ.fatal t with
  | .none =>
      match t with
      | .client c =>
          match (σ.clients c).pc, (σ.clients c).program with
          | .idle, .save _ :: _ => !σ.bgPtr
          | _, _ => false
      | _ => false
  | .fatal _ => !σ.g_logger_instance
  | .readBg _ => !σ.bgPtr
  | _ => false

/-- A callback is running on the thread of the sink. -/
def inCallback (σ : State T R) (s : SinkId) : Bool :=
  match (σ.sinks s)._bg.func with
  | some (.work _) => true
  | _ => false

end State

/-- Who moves, and what the environment chooses. -/
inductive Action
  | client (c : ClientId) (fresh : SinkId)
  | worker
  | sink (s : SinkId)
  /-- The thread goes on with its fatal event. -/
  | fatal (t : Thread)
  /-- A fatal signal arrives on the thread. -/
  | signal (t : Thread) (msg : FatalMessage)
  /-- `LOG(FATAL)` or `CHECK` in the callback that the sink's thread is running. -/
  | raise (s : SinkId) (msg : FatalMessage)
  /-- `SIGSEGV`: the thread dereferences a null pointer. -/
  | fault (t : Thread) (msg : FatalMessage)
  deriving DecidableEq

variable {T R : Type}

/-- The step of an action. A thread with a fatal event does nothing else any more, and
the process ends with the first call of `exitWithDefaultSignalHandler`. -/
def step (σ : State T R) (a : Action) : Option (State T R) :=
  if σ.exited then none
  else match a with
    | .client c fresh => if σ.fatal (.client c) = .none then σ.clientStep c fresh else none
    | .worker => if σ.fatal .worker = .none then σ.workerStep else none
    | .sink s => if σ.fatal (.sink s) = .none then σ.sinkStep s else none
    | .fatal t => σ.fatalStep t
    | .signal t msg => if σ.alive t then some (σ.setFatal t (.signalHandler msg)) else none
    | .raise s msg =>
        if σ.fatal (.sink s) = .none ∧ σ.inCallback s then
          some (σ.setFatal (.sink s) (.isLoggingInitialized msg))
        else none
    | .fault t msg =>
        if σ.derefsNull t then some (σ.setFatal t (.signalHandler msg)) else none

/-- The worker with any clients. -/
def logWorker (T R : Type) : System (State T R) Action where
  Start := fun σ => ∃ programs active, σ = init programs active
  step := step

end G3log
