import G3log.Flush

/-!
# Several fatal events at once

The first fatal message that the worker takes from its queue resets the logger and is
forwarded, and the sinks are cleared before the process ends. Meanwhile other threads
may have a fatal event of their own. One that finds no logger any more ends the process
at once; one that finds it hands its message to the worker and sleeps for ever, on
whatever thread it is.

## Main definitions

* `testsInTime` -- no thread looks for the logger while `bgFatal` runs.
* `fatal_flushes` -- what the sinks have logged when the process ends.
* `State.stuck` -- a fatal message is accepted, and no thread can go on.
* `wakeful` -- the worker neither sleeps nor waits for a sink that does.
* `not_stuck` -- under this, and with all mutexes free, the process comes to its end.
-/

namespace G3log

open Transition Broadcast

variable {T R : Type}

/-! ## The end of the process -/

/-- In `bgFatal`, past `shutDownLogging` and before the sinks are cleared. -/
def WorkerPc.flushing : WorkerPc → Bool
  | .bgFatal _ _ | .clear (some _) | .join _ (some _) => true
  | _ => false

/-- The end of `bgFatal`. -/
def WorkerPc.flushed : WorkerPc → Bool
  | .exitWithDefaultSignalHandler _ => true
  | _ => false

namespace FatalPc

/-- The test has found the logger, and the message is on its way to the worker. -/
def accepting : FatalPc → Bool
  | .fatal _ | .readBg _ | .send _ => true
  | _ => false

/-- The test has not found the logger. -/
def exiting : FatalPc → Bool
  | .exitWithDefaultSignalHandler _ => true
  | _ => false

end FatalPc

/-- No thread tests for the logger in `pushFatalMessageToLogger` while the worker is in
`bgFatal`, past `shutDownLogging` and before the sinks are cleared. -/
def testsInTime (σ : State T R) (a : Action) : Prop :=
  ∀ t msg, a = .fatal t → σ.fatal t = .isLoggingInitialized msg → σ.pc.flushing = false

/-- The logger has not been there for a fatal message. -/
structure NeverActive (σ : State T R) : Prop where
  logger : σ.g_logger_instance = false
  sent : ∀ msg, .work (.bgFatal msg) ∉ σ._bg.sent
  accepting : ∀ t, (σ.fatal t).accepting = false

/-- The logger is there for fatal messages until `bgFatal` takes it away. -/
def WasActive (σ : State T R) : Prop :=
  σ.g_logger_instance = true ∨ σ.pc.flushing = true ∨ σ.pc.flushed = true

/-- Who ends the process, as long as the destructor has not begun. -/
structure Exits (σ : State T R) : Prop where
  logger : WasActive σ ∨ NeverActive σ
  exiting : ∀ t, (σ.fatal t).exiting = true → σ.pc.flushed = true ∨ NeverActive σ
  exited : σ.exited = true → σ.pc.flushed = true ∨ ∃ t, (σ.fatal t).exiting = true

namespace NeverActive
variable {σ σ' : State T R}

theorem accepting_update (h : NeverActive σ) (t : Thread) {pc : FatalPc}
    (hpc : pc.accepting = false) (t' : Thread) :
    (Function.update σ.fatal t pc t').accepting = false := by
  by_cases ht : t' = t
  · subst ht; simpa using hpc
  · simpa [ht] using h.accepting t'

theorem step (h : NeverActive σ) {a : Action} (hs : Step σ a σ') : NeverActive σ' := by
  cases hs with
  | client _ hs =>
      cases hs with
      | sendSave | sendAdd | sendClear | resetBg =>
          exact ⟨h.logger, by simpa using h.sent, h.accepting⟩
      | fatal => exact ⟨h.logger, h.sent, h.accepting_update _ rfl⟩
      | destroy => exact ⟨rfl, h.sent, h.accepting⟩
      | _ => exact ⟨h.logger, h.sent, h.accepting⟩
  | worker _ hs =>
      cases hs with
      | exit _ hexit => exact ⟨h.logger, Active.sent_exit hexit ▸ h.sent, h.accepting⟩
      | pop _ hpop => exact ⟨h.logger, Active.sent_pop hpop ▸ h.sent, h.accepting⟩
      | bgSaveEnd | addSink | clearEnd | done =>
          exact ⟨h.logger, σ._bg.sent_ret ▸ h.sent, h.accepting⟩
      | shutDownLogging => exact ⟨rfl, h.sent, h.accepting⟩
      | _ => exact ⟨h.logger, h.sent, h.accepting⟩
  | sink _ hs =>
      cases hs with
      | turn | value => exact ⟨h.logger, h.sent, h.accepting⟩
  | @fatal t _ hs =>
      cases hs with
      | initialized _ hptr => simp [h.logger] at hptr
      | fatal hpc | readBg hpc | send hpc =>
          have := h.accepting t
          simp [hpc, FatalPc.accepting] at this
      | exitWithDefaultSignalHandler => exact ⟨h.logger, h.sent, h.accepting⟩
      | _ => exact ⟨h.logger, h.sent, h.accepting_update _ rfl⟩
  | signal | raise | fault => exact ⟨h.logger, h.sent, h.accepting_update _ rfl⟩

end NeverActive

/-- `bgFatal` does not come back from `exitWithDefaultSignalHandler`. -/
theorem Step.flushed {σ σ' : State T R} {a : Action} (hs : Step σ a σ')
    (h : σ.pc.flushed = true) : σ'.pc.flushed = true := by
  rcases hs.data with ⟨c, fresh, hs⟩ | hs | ⟨s, hs⟩ | hs
  · rwa [hs.worker_eq.1]
  · cases hs with
    | exitWithDefaultSignalHandler => exact h
    | _ hpc => simp [hpc, WorkerPc.flushed] at h
  · cases hs with
    | turn | value => exact h
  · cases hs with
    | keep | send => exact h

theorem WasActive.step {σ σ' : State T R} {a : Action} (h : WasActive σ) (hs : Step σ a σ')
    (hbefore : σ'.destroying = false) : WasActive σ' := by
  rcases hs.data with ⟨c, fresh, hs⟩ | hs | ⟨s, hs⟩ | hs
  · cases hs with
    | destroy => simp at hbefore
    | _ => exact h
  · cases hs with
    | exit | clearShared | exitWithDefaultSignalHandler => exact h
    | shutDownLogging | bgFatal => exact .inr (.inl rfl)
    | bgFatalEnd => exact .inr (.inl rfl)
    | clearEndFatal => exact .inr (.inr rfl)
    | @clearLast fatal _ _ hpc | @join _ fatal hpc =>
        cases fatal with
        | none => exact .inl (h.resolve_right (by simp [hpc, WorkerPc.flushing, WorkerPc.flushed]))
        | some msg => exact .inr (.inl rfl)
    | _ hpc => exact .inl (h.resolve_right (by simp [hpc, WorkerPc.flushing, WorkerPc.flushed]))
  · cases hs with
    | turn | value => exact h
  · cases hs with
    | keep | send => exact h

/-- A thread that has not found the logger was there before, or finds out in the step. -/
theorem Step.exiting {σ σ' : State T R} {a : Action} (hs : Step σ a σ') {t : Thread}
    (h : (σ'.fatal t).exiting = true) :
    (σ.fatal t).exiting = true ∨ a = .fatal t ∧ σ.g_logger_instance = false ∧
      ∃ msg, σ.fatal t = .isLoggingInitialized msg := by
  have update {t' : Thread} {pc : FatalPc} (hpc : pc.exiting = false)
      (h : (Function.update σ.fatal t' pc t).exiting = true) : (σ.fatal t).exiting = true := by
    by_cases ht : t = t'
    · subst ht
      simp [hpc] at h
    · simpa [ht] using h
  cases hs with
  | client _ hs =>
      cases hs with
      | fatal => exact .inl (update rfl h)
      | _ => exact .inl h
  | worker _ hs => cases hs <;> exact .inl h
  | sink _ hs => cases hs <;> exact .inl h
  | @fatal t' _ hs =>
      cases hs with
      | @notInitialized msg hpc hptr =>
          by_cases ht : t = t'
          · subst ht
            exact .inr ⟨rfl, hptr, msg, hpc⟩
          · exact .inl (by simpa [ht] using h)
      | exitWithDefaultSignalHandler => exact .inl h
      | _ => exact .inl (update rfl h)
  | signal | raise | fault => exact .inl (update rfl h)

theorem Step.exited {σ σ' : State T R} {a : Action} (hs : Step σ a σ')
    (hbefore : σ.exited = false) (h : σ'.exited = true) :
    σ'.pc.flushed = true ∨ ∃ t, (σ'.fatal t).exiting = true := by
  cases hs with
  | client _ hs =>
      cases hs <;> simp [hbefore, State.afterRelease, State.destroySink] at h
  | worker _ hs =>
      cases hs with
      | exitWithDefaultSignalHandler hpc => exact .inl (by simp [hpc, WorkerPc.flushed])
      | _ => simp [hbefore, State.ret, State.destroySink] at h
  | sink _ hs => cases hs <;> simp [hbefore] at h
  | @fatal t _ hs =>
      cases hs with
      | exitWithDefaultSignalHandler hpc => exact .inr ⟨t, by simp [hpc, FatalPc.exiting]⟩
      | _ => simp [hbefore] at h
  | signal | raise | fault => simp [hbefore] at h

theorem Exits.step {σ σ' : State T R} {a : Action} (h : Exits σ) (hexited : σ.exited = false)
    (hok : testsInTime σ a) (hs : Step σ a σ') (hbefore : σ'.destroying = false) :
    Exits σ' where
  logger := h.logger.imp (·.step hs hbefore) (·.step hs)
  exiting := by
    intro t ht
    rcases hs.exiting ht with hold | ⟨rfl, hptr, msg, hpc⟩
    · exact (h.exiting t hold).imp hs.flushed (·.step hs)
    · -- A test that finds no logger comes before all fatal messages or after the flush.
      have hflushing := hok t msg rfl hpc
      refine h.logger.imp (fun hactive => hs.flushed ?_) (·.step hs)
      rcases hactive with hptr' | hflushing' | hflushed
      · simp [hptr] at hptr'
      · simp [hflushing] at hflushing'
      · exact hflushed
  exited := fun h' => hs.exited hexited h'

/-- The destructor begins once and for all. -/
theorem Step.destroying_mono {σ σ' : State T R} {a : Action} (hs : Step σ a σ')
    (h : σ'.destroying = false) : σ.destroying = false := by
  rcases hs.data with ⟨c, fresh, hs⟩ | hs | ⟨s, hs⟩ | hs
  · cases hs with
    | destroy => simp at h
    | _ => exact h
  · cases hs <;> exact h
  · cases hs <;> exact h
  · cases hs <;> exact h

theorem exits {σ : State T R} (h : (logWorker T R).ReachableBy testsInTime σ)
    (hbefore : σ.destroying = false) : Exits σ := by
  refine h.invariant (P := fun σ => σ.destroying = false → Exits σ) ?_
    (fun σ a σ' _ hok hσ hs hbefore => ?_) hbefore
  · rintro _ ⟨programs, active, rfl⟩ -
    refine ⟨?_, by simp [init, FatalPc.exiting], by simp [init]⟩
    cases active with
    | true => exact .inl (.inl rfl)
    | false => exact .inr ⟨rfl, by simp [init], fun _ => rfl⟩
  · obtain ⟨hexited, hs⟩ := step_cases hs
    exact (hσ (hs.destroying_mono hbefore)).step hexited hok hs hbefore

/-- The task in progress at the end of `bgFatal` is the first fatal one in the queue. -/
theorem executed_of_exit {bg : Active WorkerTask} {pc : WorkerPc} (h : WorkerOk bg pc)
    (hpc : pc.flushed = true) {pre post : List WorkerTask} {msg : FatalMessage}
    (hsent : workOf bg.sent = pre ++ .bgFatal msg :: post) (hfirst : ∀ g, .bgFatal g ∉ pre) :
    pc = .exitWithDefaultSignalHandler msg ∧ workOf bg.executed = pre := by
  cases pc with
  | exitWithDefaultSignalHandler g =>
      have htasks := h.tasks_isPrefix hsent
      have hlast : workOf (bg.executed ++ bg.func.toList) = workOf bg.executed ++ [.bgFatal g] := by
        rw [h.func]
        simp [WorkerPc.func]
      rw [hlast] at htasks
      rcases List.prefix_concat_iff.mp htasks with heq | hle
      · obtain ⟨hpre, hmsg⟩ := List.append_inj' heq rfl
        obtain rfl : g = msg := by simpa using hmsg
        exact ⟨rfl, hpre⟩
      · exact absurd (hle.subset (by simp)) (hfirst g)
  | _ => simp [WorkerPc.flushed] at hpc

/-- Without a clear, all that is published after a sink was added is published for it. -/
theorem publishedFor_of_no_clear {tasks : List WorkerTask} (h : .clearSinks ∉ tasks)
    (s : SinkId) : publishedFor s (tasks.map WorkerTask.event) = enqueuedAfter s tasks := by
  have hall : ∀ e ∈ after s (tasks.map WorkerTask.event), isClear e = false := by
    intro e he
    obtain ⟨task, htask, rfl⟩ :=
      List.mem_map.mp ((List.dropWhile_sublist _).mem (List.mem_of_mem_tail he))
    cases task with
    | clearSinks => exact absurd htask h
    | _ => rfl
  rw [publishedFor, enqueuedAfter, List.takeWhile_eq_self_iff.mpr fun e he => by simp [hall e he]]

/-- At the end of `bgFatal` everything up to the first fatal message is forwarded. -/
theorem forwarded_of_exit {Ok : State T R → Action → Prop} {σ : State T R}
    (h : (logWorker T R).ReachableBy Ok σ) (hbefore : σ.destroying = false)
    (hflushed : σ.pc.flushed = true) {pre post : List WorkerTask} {msg : FatalMessage}
    (hsent : workOf σ._bg.sent = pre ++ .bgFatal msg :: post) (hfirst : ∀ g, .bgFatal g ∉ pre)
    {s : SinkId} (hs : .addSink s ∈ pre) :
    (σ.sinks s).forwarded = enqueuedAfter s pre ++ [msg.exitNotice] := by
  obtain ⟨hpc, hexecuted⟩ := executed_of_exit (owned h).worker hflushed hsent hfirst
  have honce := once_events h s σ._bg.executed_isPrefix
  have hclear : .clearSinks ∉ pre := by
    intro hmem
    refine ((shutdown h).before hbefore).2.2.2.2.1 (Active.mem_workOf.mp ?_)
    rw [hsent]
    exact List.mem_append_left _ hmem
  have hevents : events σ._bg.executed = pre.map WorkerTask.event := by rw [events, hexecuted]
  have hsubscribed : s ∈ (replay (events σ._bg.executed)).subscribers := by
    refine (mem_subscribers_iff honce).mpr ⟨?_, ?_⟩
    · rw [any_events_iff, ← Active.mem_workOf, hexecuted]
      exact hs
    · rw [hevents, List.any_eq_false]
      intro e he
      obtain ⟨task, htask, rfl⟩ :=
        List.mem_map.mp ((List.dropWhile_sublist _).mem (List.mem_of_mem_tail he))
      cases task with
      | clearSinks => exact absurd htask hclear
      | _ => simp [WorkerTask.event, isClear]
  rw [(delivered h).forwarded s, delivered_eq honce, hevents, publishedFor_of_no_clear hclear,
    ← hevents, hpc]
  simp [WorkerPc.forwarded, hsubscribed]

/-- The flush, in the runs where no thread looks for the logger while `bgFatal` runs. If a
fatal message was accepted and the process ends, with no client inside `addSink` or
`SinkHandle::call`, each sink added before has run on everything enqueued before the first
fatal message, and on that one. -/
theorem fatal_flushes {σ : State T R} (h : (logWorker T R).ReachableBy testsInTime σ)
    (hexited : σ.exited = true) (hbefore : σ.destroying = false)
    (hquiet : ∀ c, (σ.clients c).pc.usesSink = false) {pre post : List WorkerTask}
    {msg : FatalMessage} (hsent : workOf σ._bg.sent = pre ++ .bgFatal msg :: post)
    (hfirst : ∀ g, .bgFatal g ∉ pre) {s : SinkId} (hs : .addSink s ∈ pre) :
    (σ.sinks s).logged = enqueuedAfter s pre ++ [msg.exitNotice] := by
  have hexits := exits h hbefore
  have haccepted : .work (.bgFatal msg) ∈ σ._bg.sent := by
    rw [← Active.mem_workOf, hsent]
    simp
  have hflushed : σ.pc.flushed = true := by
    rcases hexits.exited hexited with hflushed | ⟨t, ht⟩
    · exact hflushed
    · exact (hexits.exiting t ht).resolve_right fun hnever => hnever.sent msg haccepted
  have hpc := (executed_of_exit (owned h).worker hflushed hsent hfirst).1
  have hexecuted : (σ.sinks s)._bg.executed = (σ.sinks s)._bg.sent := by
    refine drained_of_quiet h hquiet ((shutdown h).before hbefore).2.2.2.2.2 ?_ ?_
    · simp [sinks_of_exit h hpc]
    · simp [hpc, WorkerPc.joins]
  rw [← forwarded_of_exit h hbefore hflushed hsent hfirst hs]
  exact Sink.flushed_of_executed hexecuted

/-- A test for the step not to look for the logger while `bgFatal` runs. -/
def testsEarly (σ : State T R) : Action → Bool
  | .fatal t =>
      match σ.fatal t with
      | .isLoggingInitialized _ => !σ.pc.flushing
      | _ => true
  | _ => true

theorem testsInTime_of_testsEarly {σ : State T R} {a : Action} (h : testsEarly σ a = true) :
    testsInTime σ a := by
  rintro t msg rfl hpc
  simpa [testsEarly, hpc] using h

theorem fatal_flushes_greeting : ∃ σ : State Unit Unit, σ.exited = true ∧
    workOf σ._bg.sent = [.addSink 0, .bgSave greeting] ++ .bgFatal lastWords :: [.bgSave greeting] ∧
      (σ.sinks 0).logged =
        enqueuedAfter 0 [.addSink 0, .bgSave greeting] ++ [lastWords.exitNotice] := by
  have hrun : ((logWorker Unit Unit).runBy testsEarly (init panicCrew true)
      (acceptRun ++ [Action.client 2 0, Action.client 2 0] ++ flushRun)).any (fun σ => σ.exited &&
        !σ.destroying && ((List.range 5).all fun c => !(σ.clients c).pc.usesSink) &&
        decide (workOf σ._bg.sent = [WorkerTask.addSink 0, WorkerTask.bgSave greeting] ++
          WorkerTask.bgFatal lastWords :: [WorkerTask.bgSave greeting])) = true := by
    decide +kernel
  obtain ⟨σ, hσ, hp⟩ := (Option.any_eq_true _ _).mp hrun
  simp only [Bool.and_eq_true, Bool.not_eq_true', decide_eq_true_eq] at hp
  have hquiet : ∀ c, (σ.clients c).pc.usesSink = false := fun c => by
    simpa using forall_clients_of_runBy (n := 5) (p := fun k => !k.pc.usesSink) hσ (by decide)
      (fun _ _ => rfl) hp.1.2 c
  have hstart : (logWorker Unit Unit).Start (init panicCrew true) := ⟨panicCrew, true, rfl⟩
  have hreach := (System.reachableBy_of_runBy (.start hstart) hσ).mono
    fun _ _ => testsInTime_of_testsEarly
  exact ⟨σ, hp.1.1.1, hp.2,
    fatal_flushes hreach hp.1.1.1 hp.1.1.2 hquiet hp.2 (by simp) (by simp)⟩

/-- A second fatal event looks for the logger right after `shutDownLogging`, and ends the
process before anything is flushed. -/
def overtakenRun : List Action :=
  acceptRun ++ List.replicate 5 .worker ++
    [.client 4 0, .fatal (.client 4), .fatal (.client 4)]

theorem fatal_overtaken : ¬ ∀ σ : State Unit Unit, (logWorker Unit Unit).Reachable σ →
    σ.exited = true → σ.destroying = false → (∀ c, (σ.clients c).pc.usesSink = false) →
      ∀ pre post msg, workOf σ._bg.sent = pre ++ .bgFatal msg :: post →
        (∀ g, .bgFatal g ∉ pre) → ∀ s, .addSink s ∈ pre →
          (σ.sinks s).logged = enqueuedAfter s pre ++ [msg.exitNotice] := by
  intro h
  have hrun : ((logWorker Unit Unit).runBy (fun _ _ => true) (init panicCrew true)
      overtakenRun).any (fun σ => σ.exited && !σ.destroying &&
        ((List.range 5).all fun c => !(σ.clients c).pc.usesSink) &&
        decide (workOf σ._bg.sent = [.addSink 0, .bgSave greeting] ++ [.bgFatal lastWords]) &&
        decide ((σ.sinks 0).logged = [])) = true := by
    decide +kernel
  obtain ⟨σ, hσ, hp⟩ := (Option.any_eq_true _ _).mp hrun
  simp only [Bool.and_eq_true, Bool.not_eq_true', decide_eq_true_eq] at hp
  obtain ⟨⟨⟨⟨hexited, hbefore⟩, hclients⟩, hsent⟩, hlogged⟩ := hp
  have hquiet : ∀ c, (σ.clients c).pc.usesSink = false := fun c => by
    simpa using forall_clients_of_runBy (n := 5) (p := fun k => !k.pc.usesSink) hσ (by decide)
      (fun _ _ => rfl) hclients c
  have hstart : (logWorker Unit Unit).Start (init panicCrew true) := ⟨panicCrew, true, rfl⟩
  have hreach := (System.reachableBy_of_runBy (.start hstart) hσ).reachable
  have := h σ hreach hexited hbefore hquiet _ _ _ hsent (by simp) 0 (by simp)
  simp [hlogged] at this

/-! ## Waiting for ever -/

namespace State

/-- The worker has accepted a fatal message. -/
def accepted (σ : State T R) : Prop := ∃ msg, .work (.bgFatal msg) ∈ σ._bg.sent

/-- A fatal message is accepted, the process has not ended, and no thread can go on. -/
def stuck (σ : State T R) : Prop :=
  σ.accepted ∧ σ.exited = false ∧ σ.halted

/-- With its next step for a fatal event the thread begins to sleep. -/
def sleepsNext (σ : State T R) (t : Thread) : Bool :=
  match σ.fatal t with
  | .send _ => true
  | .signalHandler _ => decide (σ.firstExit ≠ 0)
  | _ => false

end State

/-- The worker's thread does not begin to sleep, and neither does that of a sink it waits
for; it does not begin to wait for a sink whose thread sleeps; and a fatal message does not
go behind the destructor's callback, unless another one is before it. -/
structure wakeful (σ : State T R) (a : Action) : Prop where
  worker : a = .fatal .worker → σ.sleepsNext .worker = false
  joined : ∀ s, a = .fatal (.sink s) → σ.pc.joins = some s → σ.sleepsNext (.sink s) = false
  clear : ∀ fatal s rest, a = .worker → σ.pc = .clear fatal → σ._sinks = s :: rest →
    σ.fatal (.sink s) = .sleep → (σ.sinks s).temps ≠ ∅
  queue : ∀ t msg, a = .fatal t → σ.fatal t = .send msg → .done ∈ σ._bg.sent →
    ∃ g, .bgFatal g ∈ Active.untilDone σ._bg.sent

/-- What is left awake, and the fatal message that will be found. -/
structure Awake (σ : State T R) : Prop where
  worker : σ.fatal .worker ≠ .sleep
  joined : ∀ s, σ.pc.joins = some s → σ.fatal (.sink s) ≠ .sleep
  found : σ.accepted → ∃ msg, .bgFatal msg ∈ Active.untilDone σ._bg.sent

/-- A thread sleeps that has slept before, or begins to in the step. -/
theorem Step.sleeps {σ σ' : State T R} {a : Action} (hs : Step σ a σ') {t : Thread}
    (h : σ'.fatal t = .sleep) :
    σ.fatal t = .sleep ∨ a = .fatal t ∧ σ.sleepsNext t = true := by
  have update {t' : Thread} {pc : FatalPc} (hpc : pc ≠ .sleep)
      (h : Function.update σ.fatal t' pc t = .sleep) : σ.fatal t = .sleep := by
    by_cases ht : t = t'
    · subst ht
      simp [hpc] at h
    · simpa [ht] using h
  cases hs with
  | client _ hs =>
      cases hs with
      | fatal => exact .inl (update (by simp) h)
      | _ => exact .inl h
  | worker _ hs => cases hs <;> exact .inl h
  | sink _ hs => cases hs <;> exact .inl h
  | @fatal t' _ hs =>
      cases hs with
      | laterSignal hpc hfirst | send hpc =>
          by_cases ht : t = t'
          · subst ht
            exact .inr ⟨rfl, by simp_all [State.sleepsNext]⟩
          · exact .inl (by simpa [ht] using h)
      | exitWithDefaultSignalHandler => exact .inl h
      | _ => exact .inl (update (by simp) h)
  | signal | raise | fault => exact .inl (update (by simp) h)

/-- A fatal message in the queue was there before, or is sent in the step. -/
theorem Step.accepts {σ σ' : State T R} {a : Action} (hs : Step σ a σ') (h : σ'.accepted) :
    σ.accepted ∨ ∃ t msg, a = .fatal t ∧ σ.fatal t = .send msg ∧
      σ'._bg.sent = σ._bg.sent ++ [.work (.bgFatal msg)] := by
  obtain ⟨g, hg⟩ := h
  cases hs with
  | client _ hs =>
      refine .inl ⟨g, ?_⟩
      cases hs with
      | sendSave | sendAdd | sendClear | resetBg => simpa using hg
      | _ => exact hg
  | worker _ hs =>
      refine .inl ⟨g, ?_⟩
      cases hs with
      | exit _ hexit => exact Active.sent_exit hexit ▸ hg
      | pop _ hpop => exact Active.sent_pop hpop ▸ hg
      | bgSaveEnd | addSink | clearEnd | done => exact σ._bg.sent_ret ▸ hg
      | _ => exact hg
  | sink _ hs =>
      refine .inl ⟨g, ?_⟩
      cases hs <;> exact hg
  | @fatal t _ hs =>
      cases hs with
      | @send msg hpc => exact .inr ⟨t, msg, rfl, hpc, by simp⟩
      | _ => exact .inl ⟨g, hg⟩
  | signal | raise | fault => exact .inl ⟨g, hg⟩

/-- The worker waits for a sink it has waited for before, or has just closed. -/
theorem Step.joins {σ σ' : State T R} {a : Action} (hs : Step σ a σ') {s : SinkId}
    (h : σ'.pc.joins = some s) : σ.pc.joins = some s ∨
      ∃ fatal rest, a = .worker ∧ σ.pc = .clear fatal ∧ σ._sinks = s :: rest ∧
        (σ.sinks s).temps = ∅ := by
  cases hs with
  | client _ hs => exact .inl (by rwa [hs.worker_eq.1] at h)
  | worker _ hs =>
      cases hs with
      | exit | clearShared | exitWithDefaultSignalHandler => exact .inl h
      | @pop _ c =>
          cases c with
          | work task => cases task <;> simp [State.enter, WorkerPc.joins] at h
          | done => simp [State.enter, WorkerPc.joins] at h
      | @clearLast fatal s' rest hpc hsinks hstrong =>
          obtain rfl : s' = s := by simpa [WorkerPc.joins] using h
          simp only [State.strong, Bool.or_eq_false_iff, decide_eq_false_iff_not] at hstrong
          exact .inr ⟨fatal, rest, rfl, hpc, hsinks, Finset.not_nonempty_iff_eq_empty.mp hstrong.2⟩
      | _ => simp [State.ret, WorkerPc.joins] at h
  | sink _ hs => exact .inl (by cases hs <;> exact h)
  | fatal hs => exact .inl (by cases hs <;> exact h)
  | signal | raise | fault => exact .inl h

theorem awake {σ : State T R} (h : (logWorker T R).ReachableBy wakeful σ) : Awake σ := by
  refine h.invariant ?_ fun σ a σ' hr hok hσ hs => ?_
  · rintro _ ⟨programs, active, rfl⟩
    exact ⟨nofun, nofun, fun ⟨_, hmem⟩ => by simp [init] at hmem⟩
  have hs := (step_cases hs).2
  refine ⟨fun hsleep => ?_, fun s hj hsleep => ?_, fun hacc => ?_⟩
  · rcases hs.sleeps hsleep with hold | ⟨ha, hnext⟩
    · exact hσ.worker hold
    · simp [hok.worker ha] at hnext
  · rcases hs.joins hj with hj | ⟨fatal, rest, ha, hpc, hsinks, htemps⟩
    · rcases hs.sleeps hsleep with hold | ⟨ha, hnext⟩
      · exact hσ.joined s hj hold
      · simp [hok.joined s ha hj] at hnext
    · rcases hs.sleeps hsleep with hold | ⟨ha', -⟩
      · exact hok.clear fatal s rest ha hpc hsinks hold htemps
      · simp [ha] at ha'
  · have hgrows : Active.untilDone σ._bg.sent <+: Active.untilDone σ'._bg.sent := by
      obtain ⟨cs, hcs⟩ := hs.sent_isPrefix
      rw [← hcs]
      exact Active.untilDone_prefix_append _ _
    rcases hs.accepts hacc with hold | ⟨t, msg, ha, hpc, hsent⟩
    · obtain ⟨g, hg⟩ := hσ.found hold
      exact ⟨g, hgrows.subset hg⟩
    · by_cases hdone : .done ∈ σ._bg.sent
      · obtain ⟨g, hg⟩ := hok.queue t msg ha hpc hdone
        exact ⟨g, hgrows.subset hg⟩
      · refine ⟨msg, ?_⟩
        rw [hsent, Active.untilDone_append hdone]
        simp [Active.untilDone]

/-- A thread that handles a fatal event, and does not sleep, can go on. -/
theorem exists_step_of_fatal {σ : State T R} (hexited : σ.exited = false) {t : Thread}
    (hnone : σ.fatal t ≠ .none) (hsleep : σ.fatal t ≠ .sleep) :
    ∃ a : Action, a.ofThread = true ∧ (step σ a).isSome := by
  cases hpc : σ.fatal t with
  | none => exact absurd hpc hnone
  | sleep => exact absurd hpc hsleep
  | signalHandler | isLoggingInitialized | exitWithDefaultSignalHandler | send =>
      exact ⟨.fatal t, rfl, by simp [step, hexited, State.fatalStep, hpc]⟩
  | fatal msg =>
      by_cases hptr : σ.g_logger_instance = true
      · exact ⟨.fatal t, rfl, by simp [step, hexited, State.fatalStep, hpc, hptr]⟩
      · -- The null pointer is dereferenced, which is one more signal.
        exact ⟨.fault t msg, rfl, by simp [step, hexited, State.derefsNull, hpc, hptr]⟩
  | readBg msg =>
      by_cases hptr : σ.bgPtr = true
      · exact ⟨.fatal t, rfl, by simp [step, hexited, State.fatalStep, hpc, hptr]⟩
      · exact ⟨.fault t msg, rfl, by simp [step, hexited, State.derefsNull, hpc, hptr]⟩

/-- The thread of a sink that is being joined can go on until it is finished. -/
theorem isSome_sinkStep {σ : State T R} (ho : Owned σ) {s : SinkId}
    (hjoining : Joining σ.pc σ.clients s) (hrunning : (σ.sinks s)._bg.finished = false) :
    (σ.sinkStep s).isSome := by
  have hlife := ho.life s
  obtain ⟨hcreated, hnot⟩ := hlife.not_strong hjoining
  obtain ⟨hclosed, -⟩ := hlife.closed hcreated hnot
  have hturn : (σ.sinks s).turn.isSome := by
    refine hlife.isSome_turn hcreated hrunning fun hfunc hdone hnil => ?_
    have hmem := hclosed.done_mem
    simp only [Active.sent, hfunc, hnil, Option.toList_none, List.append_nil] at hmem
    exact hlife.sound.not_mem hdone hmem
  simpa [State.sinkStep, hcreated] using hturn

/-- With a fatal message to be found, the worker can go on unless it waits for a sink. -/
theorem isSome_workerStep {σ : State T R} (ho : Owned σ) {msg : FatalMessage}
    (hfound : .bgFatal msg ∈ Active.untilDone σ._bg.sent)
    (hjoins : ∀ s, σ.pc.joins = some s → (σ.sinks s)._bg.finished = true) :
    σ.workerStep.isSome := by
  have hfatal : .work (.bgFatal msg) ∉ σ._bg.executed := ho.worker.noFatal msg
  cases hpc : σ.pc with
  | run =>
      have hfunc : σ._bg.func = none := by rw [ho.worker.func, hpc]; rfl
      have hdone : σ._bg.done_ = false := by
        by_contra hdone
        rw [← ho.worker.sound.work_of_done (Bool.eq_true_of_not_eq_false hdone)] at hfound
        exact hfatal (Active.mem_workOf.mp hfound)
      have hmq : σ._bg.mq_ ≠ [] := by
        intro hnil
        have hsent : σ._bg.sent = σ._bg.executed := by simp [Active.sent, hfunc, hnil]
        rw [hsent, ← List.append_nil σ._bg.executed,
          Active.untilDone_append (ho.worker.sound.not_mem hdone)] at hfound
        exact hfatal (Active.mem_workOf.mp (by simpa [Active.untilDone] using hfound))
      simpa [State.workerStep, hpc, hdone] using Active.isSome_pop hfunc hdone hmq
  | bgSave msg i | bgFatal msg i =>
      simp only [State.workerStep, hpc]
      split <;> rfl
  | clear fatal =>
      simp only [State.workerStep, hpc]
      split
      · split <;> rfl
      · cases fatal <;> rfl
  | join s fatal =>
      have hfinished := hjoins s (by rw [hpc]; rfl)
      simp [State.workerStep, hpc, hfinished]
  | addSink | shutDownLogging | exitWithDefaultSignalHandler | done =>
      simp [State.workerStep, hpc]

/-- As far as sleeping goes, no fatal message gets stuck, in the runs where the worker
neither sleeps nor waits for a sink whose thread sleeps, and where the message does not come
after the destructor's callback: as long as the process has not ended, some thread can go
on. -/
theorem not_stuck {σ : State T R} (h : (logWorker T R).ReachableBy wakeful σ) :
    ¬ σ.stuck := by
  rintro ⟨haccepted, hexited, hstuck⟩
  have ho := owned h
  have hawake := awake h
  have hnone {a : Action} (ha : a.ofThread = true) : ¬ (step σ a).isSome := by
    simp [hstuck a ha]
  -- No thread is on its way with a fatal event, so those awake are at their own work.
  have hidle {t : Thread} (hsleep : σ.fatal t ≠ .sleep) : σ.fatal t = .none := by
    by_contra hfatal
    obtain ⟨a, ha, hs⟩ := exists_step_of_fatal hexited hfatal hsleep
    exact hnone ha hs
  obtain ⟨msg, hfound⟩ := hawake.found haccepted
  refine hnone (a := .worker) rfl ?_
  simp only [step, hexited, Bool.false_eq_true, if_false, hidle hawake.worker, if_true]
  refine isSome_workerStep ho hfound fun s hj => ?_
  by_contra hfinished
  refine hnone (a := .sink s) rfl ?_
  simp only [step, hexited, Bool.false_eq_true, if_false, hidle (hawake.joined s hj), if_true]
  exact isSome_sinkStep ho (.inl hj) (Bool.eq_false_of_not_eq_true hfinished)

end G3log
