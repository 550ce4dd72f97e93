import G3log.FatalEvents
import G3log.Mutexes

/-!
# Whether a fatal message gets stuck

A thread that has a fatal event may stop for ever: in one of the loops that sleep, or at a
mutex that another stopped thread has left locked. The message is stuck when it is
accepted and no thread can go on, with the process still there.

## Main definitions

* `Locked.stuck` -- no thread can go on with a fatal message.
* `Locked.wakeful` -- the worker stays awake, and no signal stops a thread inside an access.
* `fatal_not_stuck` -- then the process comes to its end.
* `Asleep` -- a state in which the worker waits for a sink that sleeps.
* `fatal_stuck` -- otherwise it need not.
-/

namespace G3log

open Transition

variable {T R : Type}

namespace Locked

/-- A fatal message is accepted, the process has not ended, and no thread can go on. -/
def stuck (L : Locked T R) : Prop := L.state.accepted ∧ L.state.exited = false ∧ L.halted

/-- The worker neither sleeps nor waits for a sink that does, the message does not come
too late, and no signal hits a thread inside an access. -/
structure wakeful (L : Locked T R) (b : LockedAction) : Prop where
  step : ∀ a, b = .step a → G3log.wakeful L.state a
  signal : L.undisturbed b

end Locked

/-- No fatal message gets stuck, in the runs where the worker neither sleeps nor waits for a
sink whose thread sleeps, where the message does not come after the destructor's callback,
and where no signal hits a thread inside an access: as long as the process has not ended,
some thread can go on. -/
theorem fatal_not_stuck {L : Locked T R}
    (h : (lockedWorker T R).ReachableBy Locked.wakeful L) : ¬ L.stuck := by
  rintro ⟨haccepted, hexited, hhalted⟩
  have hstate : (logWorker T R).ReachableBy wakeful L.state :=
    state_reachableBy (h.mono fun _ _ hok => hok.step)
  have hundisturbed := undisturbed (h.mono fun _ _ hok => hok.signal)
  exact not_stuck hstate ⟨haccepted, hexited,
    Locked.halted_state (guarded h.reachable) hundisturbed (owned hstate) hexited hhalted⟩

/-- A test for the step to leave the worker and its sinks awake. -/
def sleepsAside (σ : State T R) : Action → Bool
  | .fatal t =>
      !σ.sleepsNext t ||
        match t with
        | .client _ => decide (.done ∉ σ._bg.sent)
        | _ => false
  | .worker =>
      match σ.pc, σ._sinks with
      | .clear _, s :: _ => decide (σ.fatal (.sink s) ≠ .sleep)
      | _, _ => true
  | _ => true

theorem wakeful_of_sleepsAside {σ : State T R} {a : Action} (h : sleepsAside σ a = true) :
    wakeful σ a where
  worker := by
    rintro rfl
    simpa [sleepsAside] using h
  joined := by
    rintro s rfl -
    simpa [sleepsAside] using h
  clear := by
    rintro fatal s rest rfl hpc hsinks hsleep
    simp [sleepsAside, hpc, hsinks, hsleep] at h
  queue := by
    rintro t msg rfl hpc hdone
    have hnext : σ.sleepsNext t = true := by simp [State.sleepsNext, hpc]
    cases t <;> simp [sleepsAside, hnext, hdone] at h

namespace Locked

/-- A test for the step to leave the worker and its sinks awake, and the accesses alone. -/
def sleepsAside (L : Locked T R) : LockedAction → Bool
  | .step a => G3log.sleepsAside L.state a &&
      match a with
      | .signal t _ => !(L.access t).busy
      | _ => true
  | _ => true

theorem wakeful_of_sleepsAside {L : Locked T R} {b : LockedAction}
    (h : L.sleepsAside b = true) : L.wakeful b where
  step := by
    rintro a rfl
    simp only [sleepsAside, Bool.and_eq_true] at h
    exact G3log.wakeful_of_sleepsAside h.1
  signal := by
    rintro t msg rfl
    simp only [sleepsAside, Bool.and_eq_true] at h
    simpa using h.2

end Locked

/-- A step that pushes, with what belongs to it. -/
def pushBy (a : Action) : List LockedAction :=
  [.lock a.thread, .step a, .unlock a.thread, .notify_one a.thread]

/-- The worker waits for its queue and is woken up for the add task. While one client has
the mutex of the hook for its fatal event, a signal hits another one that is about to push,
and brings it to the same mutex. -/
def contendedRun : List LockedAction :=
  [.lock .worker, .wait .worker, .step (.client 1 0), .step (.client 1 0)] ++
    pushBy (.client 1 0) ++
    [.lock .worker, .step .worker, .unlock .worker, .step .worker, .step (.client 1 0),
      .step (.client 1 0), .step (.client 2 0), .step (.client 3 0), .lock (.client 3),
      .step (.signal (.client 2) lastWords), .step (.fatal (.client 2)),
      .setFatalPreLoggingHook (.client 3), .unlock (.client 3), .step (.fatal (.client 3)),
      .step (.fatal (.client 3)), .step (.fatal (.client 3))] ++
    pushBy (.fatal (.client 3))

theorem fatal_not_stuck_lastWords : ∃ L : Locked Unit Unit, L.state.accepted ∧
    L.state.exited = false ∧ L.state.fatal (.client 3) = .sleep ∧
      L.access (.client 2) = .saveMessage ∧ ¬ L.stuck := by
  have hrun : ((lockedWorker Unit Unit).runBy Locked.sleepsAside (init panicCrew true).quiet
      contendedRun).any (fun L => decide (.work (.bgFatal lastWords) ∈ L.state._bg.sent) &&
        !L.state.exited && decide (L.state.fatal (.client 3) = .sleep) &&
        decide (L.access (.client 2) = .saveMessage)) = true := by
    decide +kernel
  have hstart : (lockedWorker Unit Unit).Start (init panicCrew true).quiet :=
    ⟨panicCrew, true, rfl⟩
  obtain ⟨L, hL, hp⟩ := System.exists_reachableBy hstart hrun
  simp only [Bool.and_eq_true, Bool.not_eq_true', decide_eq_true_eq] at hp
  obtain ⟨⟨⟨haccepted, hexited⟩, hsleep⟩, hpc⟩ := hp
  exact ⟨L, ⟨lastWords, haccepted⟩, hexited, hsleep, hpc,
    fatal_not_stuck (hL.mono fun _ _ => Locked.wakeful_of_sleepsAside)⟩

/-- The client has nothing more to do. -/
def Client.through (k : Client T R) : Bool :=
  match k.pc, k.program with
  | .idle, [] => true
  | _, _ => false

theorem Client.through_iff {k : Client T R} : k.through = true ↔ k.pc = .idle ∧ k.program = [] := by
  unfold through
  split
  · simp_all
  · next hnot => simpa using fun hpc hprogram => hnot hpc hprogram

/-- All programs are at their end, and the worker waits for the thread of its only sink,
which sleeps. -/
structure Asleep (σ : State T R) (s : SinkId) (msg : Option FatalMessage) : Prop where
  clients : ∀ c, (σ.clients c).pc = .idle ∧ (σ.clients c).program = []
  threads : ∀ t, σ.fatal t = .none ∨ σ.fatal t = .sleep
  pc : σ.pc = .join s msg
  worker : step σ .worker = none
  sink : σ.fatal (.sink s) = .sleep
  others : ∀ s' ≠ s, (σ.sinks s').created = false

namespace Asleep
variable {σ : State T R} {s : SinkId} {msg : Option FatalMessage}

theorem halted (h : Asleep σ s msg) : σ.halted := by
  intro a ha
  cases a with
  | client c fresh =>
      obtain ⟨hpc, hprogram⟩ := h.clients c
      simp [step, State.clientStep, hpc, hprogram]
  | worker => exact h.worker
  | sink s' =>
      by_cases hs : s' = s
      · subst hs
        simp [step, h.sink]
      · simp [step, State.sinkStep, h.others s' hs]
  | fatal t =>
      rcases h.threads t with ht | ht <;> simp [step, State.fatalStep, ht]
  | fault t f =>
      have hnull : σ.derefsNull t = false := by
        rcases h.threads t with ht | ht
        · cases t with
          | client c =>
              obtain ⟨hpc, hprogram⟩ := h.clients c
              simp [State.derefsNull, ht, hpc, hprogram]
          | worker | sink s => simp [State.derefsNull, ht]
        · simp [State.derefsNull, ht]
      simp [step, hnull]
  | signal | raise => simp [Action.ofThread] at ha

/-- No thread is about to lock a mutex either. -/
theorem nextAccess (h : Asleep σ s msg) (t : Thread) : σ.nextAccess t = none := by
  rcases h.threads t with ht | ht
  · cases t with
    | client c =>
        obtain ⟨hpc, hprogram⟩ := h.clients c
        simp [State.nextAccess, ht, hpc, hprogram]
    | worker => simp [State.nextAccess, ht, h.pc]
    | sink s' =>
        by_cases hs : s' = s
        · subst hs
          simp [h.sink] at ht
        · simp [State.nextAccess, ht, h.others s' hs]
  · simp [State.nextAccess, ht]

end Asleep

/-- One client adds a sink, one saves a message. -/
def smallCrew : ClientId → List (Op Unit Unit)
  | 1 => [.addSink () fun _ real_sink => real_sink]
  | 2 => [.save greeting]
  | _ => []

/-- The log call of the sink has a fatal event. Its thread hands the message to the worker
and sleeps, and the worker waits for that thread when it clears the sinks. -/
def sinkPanicRun : List Action :=
  addRun ++ [.client 2 0, .client 2 0, .worker, .worker, .worker, .sink 0,
    .raise 0 lastWords] ++ List.replicate 4 (.fatal (.sink 0)) ++ List.replicate 5 .worker

theorem fatal_stuck :
    ¬ ∀ L : Locked Unit Unit, (lockedWorker Unit Unit).Reachable L → ¬ L.stuck := by
  intro h
  have hrun : ((logWorker Unit Unit).runBy (fun _ _ => true) (init smallCrew true)
      sinkPanicRun).any (fun σ => decide (.work (.bgFatal lastWords) ∈ σ._bg.sent) &&
        !σ.exited && (step σ .worker).isNone && decide (σ.pc = .join 0 (some lastWords)) &&
        decide (σ.fatal (.sink 0) = .sleep) && decide (σ.fatal .worker = .none) &&
        ((List.range 3).all fun c => decide (σ.fatal (.client c) = .none)) &&
        ((List.range 3).all fun c => (σ.clients c).through)) = true := by
    decide +kernel
  obtain ⟨σ, hσ, hp⟩ := (Option.any_eq_true _ _).mp hrun
  simp only [Bool.and_eq_true, Bool.not_eq_true', decide_eq_true_eq] at hp
  obtain ⟨⟨⟨⟨⟨⟨⟨haccepted, hexited⟩, hworker⟩, hjoin⟩, hsleep⟩, hfatal⟩, hfatals⟩, hclients⟩ := hp
  have hstart : (logWorker Unit Unit).Start (init smallCrew true) := ⟨smallCrew, true, rfl⟩
  have hreach := (System.reachableBy_of_runBy (.start hstart) hσ).reachable
  -- The clients are through with their programs, and there is no other sink.
  have hthrough (c : ClientId) : (σ.clients c).pc = .idle ∧ (σ.clients c).program = [] :=
    Client.through_iff.mp (forall_clients_of_runBy (n := 3) (p := Client.through) hσ (by decide)
      (fun c hc => by obtain ⟨c, rfl⟩ := Nat.exists_eq_add_of_le' hc; rfl) hclients c)
  have hcreated {s : SinkId} (hs : s ≠ 0) : (σ.sinks s).created = false := by
    refine System.eq_of_runBy (f := fun σ => (σ.sinks s).created)
      (A := fun a => ∀ c, a ≠ .client c s) (fun _ _ _ ha hs => (step_cases hs).2.created_eq ha)
      (fun a ha c hac => ?_) hσ
    subst hac
    simp [sinkPanicRun, addRun, hs] at ha
  have hasleep (t : Thread) : σ.fatal t = .none ∨ σ.fatal t = .sleep := by
    have hthreads : sinkPanicRun.all
        (fun a => a.thread ∈ [.client 1, .client 2, .worker, .sink 0]) = true := by decide
    have hframe (ht : t ∉ [.client 1, .client 2, .worker, .sink 0]) : σ.fatal t = .none := by
      refine System.eq_of_runBy (f := fun σ => σ.fatal t) (A := fun a => a.thread ≠ t)
        (fun _ _ _ ha hs => (step_cases hs).2.fatal_eq ha) (fun a ha hat => ht ?_) hσ
      simpa [hat] using List.all_eq_true.mp hthreads a ha
    by_cases ht : t ∈ [.client 1, .client 2, .worker, .sink 0]
    · simp only [List.mem_cons, List.not_mem_nil, or_false] at ht
      rcases ht with rfl | rfl | rfl | rfl
      · exact .inl (by simpa using List.all_eq_true.mp hfatals 1 (by decide))
      · exact .inl (by simpa using List.all_eq_true.mp hfatals 2 (by decide))
      · exact .inl hfatal
      · exact .inr hsleep
    · exact .inl (hframe ht)
  have hall : Asleep σ 0 (some lastWords) :=
    ⟨hthrough, hasleep, hjoin, by simpa using hworker, hsleep, fun s hs => hcreated hs⟩
  exact h σ.quiet (quiet_reachable hreach)
    ⟨⟨lastWords, haccepted⟩, hexited, State.halted_quiet hall.halted hall.nextAccess⟩

end G3log
