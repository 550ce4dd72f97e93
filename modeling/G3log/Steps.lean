import G3log.LogWorker

/-!
# What a step can do

The inversion of the step function, one relation for each kind of thread. Everything
that is proved about all runs goes by cases on these relations.

## Main definitions

* `WorkerStep`, `ClientStep`, `SinkStep` -- the steps of the three kinds of thread.
* `Overlay` -- what any step on behalf of a fatal event may change.
* `Step`, `step_cases` -- a step is one of the four.
-/

namespace G3log

open Transition

variable {T R : Type}

inductive WorkerStep (σ : State T R) : State T R → Prop
  | exit {bg : Active WorkerTask} (hpc : σ.pc = .run) (hexit : σ._bg.exit = some bg) :
      WorkerStep σ { σ with _bg := bg }
  | pop {bg : Active WorkerTask} {c : Callback WorkerTask} (hpc : σ.pc = .run)
      (hpop : σ._bg.pop = some bg) (hfunc : bg.func = some c) :
      WorkerStep σ { σ with _bg := bg, pc := State.enter c }
  | bgSave {msg : LogMessage} {i : ℕ} {s : SinkId} (hpc : σ.pc = .bgSave msg i)
      (hs : σ._sinks[i]? = some s) :
      WorkerStep σ { σ.setSink s ((σ.sinks s).send msg) with pc := .bgSave msg (i + 1) }
  | bgSaveEnd {msg : LogMessage} {i : ℕ} (hpc : σ.pc = .bgSave msg i)
      (hs : σ._sinks[i]? = none) : WorkerStep σ σ.ret
  | addSink {s : SinkId} (hpc : σ.pc = .addSink s) :
      WorkerStep σ { σ.ret with _sinks := σ._sinks ++ [s] }
  | shutDownLogging {msg : FatalMessage} (hpc : σ.pc = .shutDownLogging msg) :
      WorkerStep σ { σ with g_logger_instance := false, pc := .bgFatal msg 0 }
  | bgFatal {msg : FatalMessage} {i : ℕ} {s : SinkId} (hpc : σ.pc = .bgFatal msg i)
      (hs : σ._sinks[i]? = some s) :
      WorkerStep σ
        { σ.setSink s ((σ.sinks s).send msg.exitNotice) with pc := .bgFatal msg (i + 1) }
  | bgFatalEnd {msg : FatalMessage} {i : ℕ} (hpc : σ.pc = .bgFatal msg i)
      (hs : σ._sinks[i]? = none) : WorkerStep σ { σ with pc := .clear (some msg) }
  | clearShared {fatal : Option FatalMessage} {s : SinkId} {rest : List SinkId}
      (hpc : σ.pc = .clear fatal) (hsinks : σ._sinks = s :: rest)
      (hstrong : { σ with _sinks := rest }.strong s = true) :
      WorkerStep σ { σ with _sinks := rest }
  | clearLast {fatal : Option FatalMessage} {s : SinkId} {rest : List SinkId}
      (hpc : σ.pc = .clear fatal) (hsinks : σ._sinks = s :: rest)
      (hstrong : { σ with _sinks := rest }.strong s = false) :
      WorkerStep σ
        { σ.setSink s (σ.sinks s).close with _sinks := rest, pc := .join s fatal }
  | clearEnd (hpc : σ.pc = .clear none) (hsinks : σ._sinks = []) : WorkerStep σ σ.ret
  | clearEndFatal {msg : FatalMessage} (hpc : σ.pc = .clear (some msg)) (hsinks : σ._sinks = []) :
      WorkerStep σ { σ with pc := .exitWithDefaultSignalHandler msg }
  | join {s : SinkId} {fatal : Option FatalMessage} (hpc : σ.pc = .join s fatal)
      (hfinished : (σ.sinks s)._bg.finished = true) :
      WorkerStep σ { σ.destroySink s with pc := .clear fatal }
  | exitWithDefaultSignalHandler {msg : FatalMessage}
      (hpc : σ.pc = .exitWithDefaultSignalHandler msg) : WorkerStep σ { σ with exited := true }
  | done (hpc : σ.pc = .done) : WorkerStep σ σ.ret

theorem workerStep_cases {σ σ' : State T R} (h : σ.workerStep = some σ') : WorkerStep σ σ' := by
  unfold State.workerStep at h
  split at h
  · next hpc =>
      split at h
      · obtain ⟨bg, hbg, rfl⟩ := Option.map_eq_some_iff.mp h
        exact .exit hpc hbg
      · obtain ⟨bg, hbg, rfl⟩ := Option.map_eq_some_iff.mp h
        obtain ⟨c, rest, -, -, -, rfl⟩ := Active.pop_eq_some hbg
        exact .pop hpc hbg rfl
  · next hpc =>
      split at h
      · next hs => exact Option.some.inj h ▸ .bgSave hpc hs
      · next hs => exact Option.some.inj h ▸ .bgSaveEnd hpc hs
  · next hpc => exact Option.some.inj h ▸ .addSink hpc
  · next hpc => exact Option.some.inj h ▸ .shutDownLogging hpc
  · next hpc =>
      split at h
      · next hs => exact Option.some.inj h ▸ .bgFatal hpc hs
      · next hs => exact Option.some.inj h ▸ .bgFatalEnd hpc hs
  · next hpc =>
      split at h
      · next hsinks =>
          dsimp only at h
          split at h
          · next hstrong => exact Option.some.inj h ▸ .clearShared hpc hsinks hstrong
          · next hstrong =>
              exact Option.some.inj h ▸ .clearLast hpc hsinks (Bool.eq_false_of_not_eq_true hstrong)
      · next hsinks =>
          split at h
          · exact Option.some.inj h ▸ .clearEnd hpc hsinks
          · exact Option.some.inj h ▸ .clearEndFatal hpc hsinks
  · next hpc =>
      split at h
      · next hfinished => exact Option.some.inj h ▸ .join hpc hfinished
      · simp at h
  · next hpc => exact Option.some.inj h ▸ .exitWithDefaultSignalHandler hpc
  · next hpc => exact Option.some.inj h ▸ .done hpc

inductive ClientStep (c : ClientId) (fresh : SinkId) (σ : State T R) : State T R → Prop
  | save {msg : LogMessage} {rest : List (Op T R)} (hpc : (σ.clients c).pc = .idle)
      (hprogram : (σ.clients c).program = .save msg :: rest) (hptr : σ.bgPtr = true) :
      ClientStep c fresh σ
        (σ.setClient c { σ.clients c with program := rest, pc := .save msg })
  | sendSave {msg : LogMessage} (hpc : (σ.clients c).pc = .save msg) :
      ClientStep c fresh σ ((σ.sendBg (.work (.bgSave msg))).goto c .idle)
  | make {real_sink : T} {call : LogMessage → T → T} {rest : List (Op T R)}
      (hpc : (σ.clients c).pc = .idle)
      (hprogram : (σ.clients c).program = .addSink real_sink call :: rest)
      (hfresh : (σ.sinks fresh).created = false) :
      ClientStep c fresh σ ((σ.setSink fresh (.make real_sink call c)).setClient c
        { σ.clients c with program := rest, pc := .addSink fresh })
  | readBg {s : SinkId} (hpc : (σ.clients c).pc = .addSink s) (hptr : σ.bgPtr = true) :
      ClientStep c fresh σ (σ.goto c (.sendAdd s))
  | readNull {s : SinkId} (hpc : (σ.clients c).pc = .addSink s) (hptr : σ.bgPtr = false) :
      ClientStep c fresh σ (σ.goto c (.release s .addSink))
  | sendAdd {s : SinkId} (hpc : (σ.clients c).pc = .sendAdd s) :
      ClientStep c fresh σ ((σ.sendBg (.work (.addSink s))).goto c (.waitAdd s))
  | waitAdd {s : SinkId} (hpc : (σ.clients c).pc = .waitAdd s)
      (hready : .work (.addSink s) ∈ σ._bg.executed ∨ σ.bgDeleted = true) :
      ClientStep c fresh σ (σ.goto c (.release s .addSink))
  | lock {s : SinkId} {func : T → T × R} {rest : List (Op T R)}
      (hpc : (σ.clients c).pc = .idle) (hprogram : (σ.clients c).program = .call s func :: rest)
      (hhandle : (σ.sinks s).handle = true) (hstrong : σ.strong s = true) :
      ClientStep c fresh σ
        ((σ.setSink s { σ.sinks s with temps := insert c (σ.sinks s).temps }).setClient c
          { σ.clients c with
            program := rest
            pc := .async s ⟨c, (σ.clients c).calls⟩ func
            calls := (σ.clients c).calls + 1 })
  | gone {s : SinkId} {func : T → T × R} {rest : List (Op T R)}
      (hpc : (σ.clients c).pc = .idle) (hprogram : (σ.clients c).program = .call s func :: rest)
      (hhandle : (σ.sinks s).handle = true) (hstrong : σ.strong s = false) :
      ClientStep c fresh σ
        { σ.setClient c
            { σ.clients c with program := rest, calls := (σ.clients c).calls + 1 } with
          futures := Function.update σ.futures ⟨c, (σ.clients c).calls⟩ .bad_weak_ptr }
  | async {s : SinkId} {id : CallId} {func : T → T × R}
      (hpc : (σ.clients c).pc = .async s id func) :
      ClientStep c fresh σ
        { (σ.setSink s ((σ.sinks s).async id func)).goto c (.release s .call) with
          futures := Function.update σ.futures id .pending }
  | releaseShared {s : SinkId} {role : Role} (hpc : (σ.clients c).pc = .release s role)
      (hstrong : (σ.setSink s { σ.sinks s with temps := (σ.sinks s).temps.erase c }).strong s =
        true) :
      ClientStep c fresh σ ((σ.setSink s { σ.sinks s with
        temps := (σ.sinks s).temps.erase c }).afterRelease c s role)
  | releaseLast {s : SinkId} {role : Role} (hpc : (σ.clients c).pc = .release s role)
      (hstrong : (σ.setSink s { σ.sinks s with temps := (σ.sinks s).temps.erase c }).strong s =
        false) :
      ClientStep c fresh σ ((σ.setSink s { (σ.sinks s).close with
        temps := (σ.sinks s).temps.erase c }).goto c (.join s role))
  | join {s : SinkId} {role : Role} (hpc : (σ.clients c).pc = .join s role)
      (hfinished : (σ.sinks s)._bg.finished = true) :
      ClientStep c fresh σ ((σ.destroySink s).afterRelease c s role)
  | fatal {msg : FatalMessage} {rest : List (Op T R)} (hpc : (σ.clients c).pc = .idle)
      (hprogram : (σ.clients c).program = .fatal msg :: rest) :
      ClientStep c fresh σ ((σ.setClient c { σ.clients c with program := rest }).setFatal
        (.client c) (.isLoggingInitialized msg))
  | destroy {rest : List (Op T R)} (hpc : (σ.clients c).pc = .idle)
      (hprogram : (σ.clients c).program = .destroy :: rest) (hfirst : σ.destroying = false) :
      ClientStep c fresh σ
        { σ.setClient c { σ.clients c with program := rest, pc := .sendClear } with
          destroying := true
          g_logger_instance := false }
  | sendClear (hpc : (σ.clients c).pc = .sendClear) :
      ClientStep c fresh σ ((σ.sendBg (.work .clearSinks)).goto c .waitClear)
  | waitClear (hpc : (σ.clients c).pc = .waitClear)
      (hready : .work .clearSinks ∈ σ._bg.executed) : ClientStep c fresh σ (σ.goto c .resetBg)
  | resetBg (hpc : (σ.clients c).pc = .resetBg) :
      ClientStep c fresh σ { (σ.sendBg .done).goto c .joinBg with bgPtr := false }
  | joinBg (hpc : (σ.clients c).pc = .joinBg) (hfinished : σ._bg.finished = true) :
      ClientStep c fresh σ { σ.goto c .destroySinks with bgDeleted := true }
  | destroyShared {s : SinkId} {rest : List SinkId} (hpc : (σ.clients c).pc = .destroySinks)
      (hsinks : σ._sinks = s :: rest) (hstrong : { σ with _sinks := rest }.strong s = true) :
      ClientStep c fresh σ { σ with _sinks := rest }
  | destroyLast {s : SinkId} {rest : List SinkId} (hpc : (σ.clients c).pc = .destroySinks)
      (hsinks : σ._sinks = s :: rest) (hstrong : { σ with _sinks := rest }.strong s = false) :
      ClientStep c fresh σ { (σ.setSink s (σ.sinks s).close).goto c (.join s .destructor) with
        _sinks := rest }
  | destroyEnd (hpc : (σ.clients c).pc = .destroySinks) (hsinks : σ._sinks = []) :
      ClientStep c fresh σ { σ.goto c .idle with destroyed := true }

theorem start_cases {c : ClientId} {fresh : SinkId} {σ σ' : State T R} {op : Op T R}
    {rest : List (Op T R)} (hpc : (σ.clients c).pc = .idle)
    (hprogram : (σ.clients c).program = op :: rest)
    (h : σ.start c fresh { σ.clients c with program := rest } op = some σ') :
    ClientStep c fresh σ σ' := by
  cases op with
  | save msg =>
      simp only [State.start] at h
      split at h
      · next hptr => exact Option.some.inj h ▸ .save hpc hprogram hptr
      · simp at h
  | addSink real_sink call =>
      simp only [State.start] at h
      split at h
      · simp at h
      · next hfresh =>
          exact Option.some.inj h ▸ .make hpc hprogram (Bool.eq_false_of_not_eq_true hfresh)
  | call s func =>
      simp only [State.start] at h
      split at h
      · simp at h
      · next hhandle =>
          have hhandle : (σ.sinks s).handle = true := by simpa using hhandle
          split at h
          · next hstrong => exact Option.some.inj h ▸ .lock hpc hprogram hhandle hstrong
          · next hstrong =>
              exact Option.some.inj h ▸
                .gone hpc hprogram hhandle (Bool.eq_false_of_not_eq_true hstrong)
  | fatal msg => exact Option.some.inj h ▸ .fatal hpc hprogram
  | destroy =>
      simp only [State.start] at h
      split at h
      · simp at h
      · next hfirst =>
          exact Option.some.inj h ▸ .destroy hpc hprogram (Bool.eq_false_of_not_eq_true hfirst)

theorem clientStep_cases {c : ClientId} {fresh : SinkId} {σ σ' : State T R}
    (h : σ.clientStep c fresh = some σ') : ClientStep c fresh σ σ' := by
  unfold State.clientStep at h
  split at h
  · next hpc =>
      split at h
      · simp at h
      · next hprogram => exact start_cases hpc hprogram h
  · next hpc => exact Option.some.inj h ▸ .sendSave hpc
  · next hpc =>
      rw [← Option.some.inj h]
      split
      · next hptr => exact .readBg hpc hptr
      · next hptr => exact .readNull hpc (Bool.eq_false_of_not_eq_true hptr)
  · next hpc => exact Option.some.inj h ▸ .sendAdd hpc
  · next hpc =>
      split at h
      · next hready => exact Option.some.inj h ▸ .waitAdd hpc hready
      · simp at h
  · next hpc => exact Option.some.inj h ▸ .async hpc
  · next s role hpc =>
      rw [← Option.some.inj h]
      unfold State.release
      dsimp only
      split
      · next hstrong => exact .releaseShared hpc hstrong
      · next hstrong =>
          have hlast : ClientStep c fresh σ _ :=
            .releaseLast hpc (Bool.eq_false_of_not_eq_true hstrong)
          simpa [State.setSink, Sink.close] using hlast
  · next hpc =>
      split at h
      · next hfinished => exact Option.some.inj h ▸ .join hpc hfinished
      · simp at h
  · next hpc => exact Option.some.inj h ▸ .sendClear hpc
  · next hpc =>
      split at h
      · next hready => exact Option.some.inj h ▸ .waitClear hpc hready
      · simp at h
  · next hpc => exact Option.some.inj h ▸ .resetBg hpc
  · next hpc =>
      split at h
      · next hfinished => exact Option.some.inj h ▸ .joinBg hpc hfinished
      · simp at h
  · next hpc =>
      split at h
      · next hsinks =>
          dsimp only at h
          split at h
          · next hstrong => exact Option.some.inj h ▸ .destroyShared hpc hsinks hstrong
          · next hstrong =>
              exact Option.some.inj h ▸
                .destroyLast hpc hsinks (Bool.eq_false_of_not_eq_true hstrong)
      · next hsinks => exact Option.some.inj h ▸ .destroyEnd hpc hsinks

inductive SinkStep (s : SinkId) (σ : State T R) : State T R → Prop
  | turn {k : Sink T R} (hcreated : (σ.sinks s).created = true)
      (hturn : (σ.sinks s).turn = some (k, none)) : SinkStep s σ (σ.setSink s k)
  | value {k : Sink T R} {id : CallId} {r : R} (hcreated : (σ.sinks s).created = true)
      (hturn : (σ.sinks s).turn = some (k, some (id, r))) :
      SinkStep s σ { σ.setSink s k with futures := Function.update σ.futures id (.value r) }

theorem sinkStep_cases {s : SinkId} {σ σ' : State T R} (h : σ.sinkStep s = some σ') :
    SinkStep s σ σ' := by
  unfold State.sinkStep at h
  split at h
  · next hcreated =>
      obtain ⟨⟨k, out⟩, hturn, rfl⟩ := Option.map_eq_some_iff.mp h
      cases out with
      | none => exact .turn hcreated hturn
      | some out => exact .value hcreated hturn
  · simp at h

inductive FatalStep (t : Thread) (σ : State T R) : State T R → Prop
  | firstSignal {msg : FatalMessage} (hpc : σ.fatal t = .signalHandler msg)
      (hfirst : σ.firstExit = 0) :
      FatalStep t σ { σ.setFatal t (.isLoggingInitialized msg) with firstExit := σ.firstExit + 1 }
  | laterSignal {msg : FatalMessage} (hpc : σ.fatal t = .signalHandler msg)
      (hfirst : σ.firstExit ≠ 0) :
      FatalStep t σ { σ.setFatal t .sleep with firstExit := σ.firstExit + 1 }
  | initialized {msg : FatalMessage} (hpc : σ.fatal t = .isLoggingInitialized msg)
      (hptr : σ.g_logger_instance = true) : FatalStep t σ (σ.setFatal t (.fatal msg))
  | notInitialized {msg : FatalMessage} (hpc : σ.fatal t = .isLoggingInitialized msg)
      (hptr : σ.g_logger_instance = false) :
      FatalStep t σ (σ.setFatal t (.exitWithDefaultSignalHandler msg))
  | exitWithDefaultSignalHandler {msg : FatalMessage}
      (hpc : σ.fatal t = .exitWithDefaultSignalHandler msg) :
      FatalStep t σ { σ with exited := true }
  | fatal {msg : FatalMessage} (hpc : σ.fatal t = .fatal msg)
      (hptr : σ.g_logger_instance = true) : FatalStep t σ (σ.setFatal t (.readBg msg))
  | readBg {msg : FatalMessage} (hpc : σ.fatal t = .readBg msg) (hptr : σ.bgPtr = true) :
      FatalStep t σ (σ.setFatal t (.send msg))
  | send {msg : FatalMessage} (hpc : σ.fatal t = .send msg) :
      FatalStep t σ ((σ.sendBg (.work (.bgFatal msg))).setFatal t .sleep)

theorem fatalStep_cases {t : Thread} {σ σ' : State T R} (h : σ.fatalStep t = some σ') :
    FatalStep t σ σ' := by
  unfold State.fatalStep at h
  split at h
  · simp at h
  · next hpc =>
      rw [← Option.some.inj h]
      split
      · next hfirst => exact .firstSignal hpc hfirst
      · next hfirst => exact .laterSignal hpc hfirst
  · next hpc =>
      rw [← Option.some.inj h]
      split
      · next hptr => exact .initialized hpc hptr
      · next hptr => exact .notInitialized hpc (Bool.eq_false_of_not_eq_true hptr)
  · next hpc => exact Option.some.inj h ▸ .exitWithDefaultSignalHandler hpc
  · next hpc =>
      split at h
      · next hptr => exact Option.some.inj h ▸ .fatal hpc hptr
      · simp at h
  · next hpc =>
      split at h
      · next hptr => exact Option.some.inj h ▸ .readBg hpc hptr
      · simp at h
  · next hpc => exact Option.some.inj h ▸ .send hpc
  · simp at h

/-- What a step on behalf of a fatal event may change: how far threads are with theirs,
and the worker's queue, by a fatal message. -/
inductive Overlay (σ : State T R) : State T R → Prop
  | keep (fatal : Thread → FatalPc) (firstExit : ℕ) (exited : Bool) :
      Overlay σ { σ with fatal := fatal, firstExit := firstExit, exited := exited }
  | send (fatal : Thread → FatalPc) (msg : FatalMessage) :
      Overlay σ { σ.sendBg (.work (.bgFatal msg)) with fatal := fatal }

theorem FatalStep.overlay {t : Thread} {σ σ' : State T R} (h : FatalStep t σ σ') :
    Overlay σ σ' := by
  cases h with
  | send => exact .send _ _
  | _ => exact .keep _ _ _

/-- A step is the next step of one thread, for an operation or for a fatal event. -/
inductive Step (σ : State T R) : Action → State T R → Prop
  | client {c : ClientId} {fresh : SinkId} {σ' : State T R} (hfatal : σ.fatal (.client c) = .none)
      (h : ClientStep c fresh σ σ') : Step σ (.client c fresh) σ'
  | worker {σ' : State T R} (hfatal : σ.fatal .worker = .none) (h : WorkerStep σ σ') :
      Step σ .worker σ'
  | sink {s : SinkId} {σ' : State T R} (hfatal : σ.fatal (.sink s) = .none)
      (h : SinkStep s σ σ') : Step σ (.sink s) σ'
  | fatal {t : Thread} {σ' : State T R} (h : FatalStep t σ σ') : Step σ (.fatal t) σ'
  | signal {t : Thread} {msg : FatalMessage} (halive : σ.alive t = true) :
      Step σ (.signal t msg) (σ.setFatal t (.signalHandler msg))
  | raise {s : SinkId} {msg : FatalMessage} (hfatal : σ.fatal (.sink s) = .none)
      (hcallback : σ.inCallback s = true) :
      Step σ (.raise s msg) (σ.setFatal (.sink s) (.isLoggingInitialized msg))
  | fault {t : Thread} {msg : FatalMessage} (hnull : σ.derefsNull t = true) :
      Step σ (.fault t msg) (σ.setFatal t (.signalHandler msg))

theorem step_cases {σ σ' : State T R} {a : Action} (h : step σ a = some σ') :
    σ.exited = false ∧ Step σ a σ' := by
  unfold step at h
  split at h
  · simp at h
  · next hexited =>
      refine ⟨Bool.eq_false_of_not_eq_true hexited, ?_⟩
      split at h
      · split at h
        · next hfatal => exact .client hfatal (clientStep_cases h)
        · simp at h
      · split at h
        · next hfatal => exact .worker hfatal (workerStep_cases h)
        · simp at h
      · split at h
        · next hfatal => exact .sink hfatal (sinkStep_cases h)
        · simp at h
      · exact .fatal (fatalStep_cases h)
      · split at h
        · next halive => exact Option.some.inj h ▸ .signal halive
        · simp at h
      · split at h
        · next hraise => exact Option.some.inj h ▸ .raise hraise.1 hraise.2
        · simp at h
      · split at h
        · next hnull => exact Option.some.inj h ▸ .fault hnull
        · simp at h

/-- The steps by what they do to worker, sinks and clients. -/
theorem Step.data {σ σ' : State T R} {a : Action} (h : Step σ a σ') :
    (∃ c fresh, ClientStep c fresh σ σ') ∨ WorkerStep σ σ' ∨ (∃ s, SinkStep s σ σ') ∨
      Overlay σ σ' := by
  cases h with
  | client _ h => exact .inl ⟨_, _, h⟩
  | worker _ h => exact .inr (.inl h)
  | sink _ h => exact .inr (.inr (.inl ⟨_, h⟩))
  | fatal h => exact .inr (.inr (.inr h.overlay))
  | signal | raise | fault => exact .inr (.inr (.inr (.keep _ _ _)))

/-! ## What a step leaves alone -/

theorem sinks_release (c : ClientId) (s : SinkId) (role : Role) (k : Sink T R) (σ : State T R) :
    ((σ.setSink s k).afterRelease c s role).sinks =
      Function.update σ.sinks s { k with handle := k.handle || decide (role = .addSink) } := by
  simp [State.afterRelease]

theorem sinks_destroySink_release (c : ClientId) (s : SinkId) (role : Role) (σ : State T R) :
    ((σ.destroySink s).afterRelease c s role).sinks =
      Function.update σ.sinks s { σ.sinks s with
        _real_sink := none
        handle := (σ.sinks s).handle || decide (role = .addSink) } := by
  simp [State.afterRelease, State.destroySink]

theorem ClientStep.clients_of_ne {c c' : ClientId} {fresh : SinkId} {σ σ' : State T R}
    (h : ClientStep c fresh σ σ') (hc : c' ≠ c) : σ'.clients c' = σ.clients c' := by
  cases h <;> simp [State.afterRelease, State.destroySink, hc]

/-- The client that moves in an action. -/
def Action.mover : Action → Option ClientId
  | .client c _ => some c
  | _ => none

/-- A client is where it was, unless it has moved. -/
theorem Step.clients_eq {c : ClientId} {σ σ' : State T R} {a : Action} (h : Step σ a σ')
    (ha : a.mover ≠ some c) : σ'.clients c = σ.clients c := by
  cases h with
  | client _ hs =>
      refine hs.clients_of_ne ?_
      rintro rfl
      exact ha rfl
  | worker _ hs => cases hs <;> rfl
  | sink _ hs => cases hs <;> rfl
  | fatal hs => cases hs <;> rfl
  | signal | raise | fault => rfl

/-- The thread that moves in an action, or has a fatal event. -/
def Action.thread : Action → Thread
  | .client c _ => .client c
  | .worker => .worker
  | .sink s | .raise s _ => .sink s
  | .fatal t | .signal t _ | .fault t _ => t

/-- The step is one that a thread takes by itself: no signal from outside, and no other
choice for what a callback does. -/
def Action.ofThread : Action → Bool
  | .signal _ _ | .raise _ _ => false
  | _ => true

/-- No thread can go on. -/
def State.halted (σ : State T R) : Prop := ∀ a : Action, a.ofThread = true → step σ a = none

/-- A thread is as far with a fatal event as it was, unless it has moved. -/
theorem Step.fatal_eq {σ σ' : State T R} {a : Action} (h : Step σ a σ') {t : Thread}
    (ha : a.thread ≠ t) : σ'.fatal t = σ.fatal t := by
  have update {pc : FatalPc} : Function.update σ.fatal a.thread pc t = σ.fatal t :=
    Function.update_of_ne (Ne.symm ha) _ _
  cases h with
  | client _ hs =>
      cases hs with
      | fatal => exact update
      | _ => rfl
  | worker _ hs => cases hs <;> rfl
  | sink _ hs => cases hs <;> rfl
  | fatal hs =>
      cases hs with
      | exitWithDefaultSignalHandler => rfl
      | _ => exact update
  | signal | raise | fault => exact update

/-- A sink is made by the client that allocates it, and stays made. -/
theorem Step.created_eq_or {σ σ' : State T R} {a : Action} (h : Step σ a σ') (s : SinkId) :
    (σ'.sinks s).created = (σ.sinks s).created ∨
      ∃ c real_sink call rest, a = .client c s ∧ (σ.clients c).pc = .idle ∧
        (σ.clients c).program = .addSink real_sink call :: rest := by
  have update {s' : SinkId} {k : Sink T R} (hk : k.created = (σ.sinks s').created) :
      (Function.update σ.sinks s' k s).created = (σ.sinks s).created := by
    by_cases hs : s = s'
    · subst hs; simpa using hk
    · simp [hs]
  cases h with
  | @client c fresh _ _ hs =>
      cases hs with
      | make hpc hprogram =>
          by_cases hs : s = fresh
          · subst hs
            exact .inr ⟨c, _, _, _, rfl, hpc, hprogram⟩
          · simp [hs]
      | lock | async | releaseLast | destroyLast => exact .inl (update rfl)
      | releaseShared => rw [sinks_release]; exact .inl (update rfl)
      | join => rw [sinks_destroySink_release]; exact .inl (update rfl)
      | _ => exact .inl rfl
  | worker _ hs =>
      cases hs with
      | bgSave | bgFatal | clearLast | join => exact .inl (update rfl)
      | _ => exact .inl rfl
  | sink _ hs =>
      cases hs with
      | turn _ hturn | value _ hturn => exact .inl (update (Sink.turn_frame hturn).1)
  | fatal hs => cases hs <;> exact .inl rfl
  | signal | raise | fault => exact .inl rfl

theorem Step.created_eq {σ σ' : State T R} {a : Action} (h : Step σ a σ') {s : SinkId}
    (ha : ∀ c, a ≠ .client c s) : (σ'.sinks s).created = (σ.sinks s).created := by
  refine (h.created_eq_or s).resolve_right ?_
  rintro ⟨c, -, -, -, rfl, -⟩
  exact ha c rfl

/-- After a concrete run the clients that took no part in it are where they were. -/
theorem forall_clients_of_runBy {ok : State T R → Action → Bool} {as : List Action} {n : ℕ}
    {σ σ' : State T R} {p : Client T R → Bool}
    (hrun : (logWorker T R).runBy ok σ as = some σ')
    (hmovers : as.all (fun a => a.mover.all (· < n)) = true)
    (hstart : ∀ c, n ≤ c → p (σ.clients c) = true)
    (hend : (List.range n).all (fun c => p (σ'.clients c)) = true) (c : ClientId) :
    p (σ'.clients c) = true := by
  by_cases hc : c < n
  · exact List.all_eq_true.mp hend c (List.mem_range.mpr hc)
  · have hsame : σ'.clients c = σ.clients c := by
      refine System.eq_of_runBy (f := fun σ => σ.clients c) (A := fun a => a.mover ≠ some c)
        (fun _ _ _ ha hs => (step_cases hs).2.clients_eq ha) (fun a ha hmover => hc ?_) hrun
      simpa [hmover] using List.all_eq_true.mp hmovers a ha
    rw [hsame]
    exact hstart c (Nat.le_of_not_lt hc)

end G3log
