import G3log.Shutdown
import G3log.Lib.Broadcast

/-!
# What the sinks receive

The worker's thread is a simulation of a registry that takes the tasks of its queue
one at a time: what has been forwarded to a sink is what the registry has handed it,
and the part of the present task that is through. As each sink is added once, that is
the messages between its add task and the next task that clears the sinks.

## Main definitions

* `WorkerTask.event`, `events` -- a task as an event of the registry.
* `State.enqueuedFor` -- the messages enqueued for a sink, in the order of the queue.
* `Delivered`, `delivered` -- the simulation, in every reachable state.
* `forwarded_isPrefix`, `logged_prefix_enqueuedFor` -- no message is skipped, doubled or
  reordered on its way to a sink.
-/

namespace G3log

open Transition Broadcast

/-- What a task means for the sinks. -/
def WorkerTask.event : WorkerTask → Event SinkId LogMessage
  | .bgSave msg => .publish msg
  | .bgFatal msg => .publish msg.exitNotice
  | .addSink s => .subscribe s
  | .clearSinks => .clear

/-- The tasks among some callbacks of the worker. -/
def events (cs : List (Callback WorkerTask)) : List (Event SinkId LogMessage) :=
  (workOf cs).map WorkerTask.event

@[simp] theorem events_append (cs ds : List (Callback WorkerTask)) :
    events (cs ++ ds) = events cs ++ events ds := by
  simp [events]

@[simp] theorem events_nil : events [] = [] := rfl

@[simp] theorem events_work (task : WorkerTask) : events [.work task] = [task.event] := rfl

@[simp] theorem events_done : events [.done] = [] := rfl

theorem countP_events (s : SinkId) (cs : List (Callback WorkerTask)) :
    (events cs).countP (isSubscribe s) = cs.count (.work (.addSink s)) := by
  induction cs with
  | nil => rfl
  | cons c cs ih =>
      have hcons : events (c :: cs) = events [c] ++ events cs := events_append [c] cs
      rw [hcons, List.countP_append, ih, List.count_cons, Nat.add_comm]
      congr 1
      cases c with
      | work task =>
          cases task with
          | addSink s' => by_cases hs : s' = s <;> simp [WorkerTask.event, isSubscribe, hs]
          | _ => simp [WorkerTask.event, isSubscribe]
      | done => simp

theorem any_events_iff (s : SinkId) (cs : List (Callback WorkerTask)) :
    (events cs).any (isSubscribe s) = true ↔ .work (.addSink s) ∈ cs := by
  rw [List.any_eq_true, ← List.countP_pos_iff, countP_events, List.count_pos_iff]

variable {T R : Type}

namespace WorkerPc

/-- The part of the present task that has been forwarded to a sink, by the vector and
by the sinks that were in it when the task began. -/
def forwarded (v subscribers : List SinkId) (s : SinkId) : WorkerPc → List LogMessage
  | .bgSave msg i => if s ∈ v.take i then [msg] else []
  | .bgFatal msg i => if s ∈ v.take i then [msg.exitNotice] else []
  | .clear (some msg) | .join _ (some msg) | .exitWithDefaultSignalHandler msg =>
      if s ∈ subscribers then [msg.exitNotice] else []
  | _ => []

/-- In `_sinks.clear()`, or past it. -/
def clears : WorkerPc → Bool
  | .clear _ | .join _ _ | .exitWithDefaultSignalHandler _ => true
  | _ => false

end WorkerPc

/-- The worker's thread and the registry that has taken the tasks executed so far. -/
structure Delivered (σ : State T R) : Prop where
  subscribers : σ._bg.finished = false → σ.pc.clears = false →
    σ._sinks = (replay (events σ._bg.executed)).subscribers
  forwarded : ∀ s, (σ.sinks s).forwarded = (replay (events σ._bg.executed)).delivered s ++
    σ.pc.forwarded σ._sinks (replay (events σ._bg.executed)).subscribers s

namespace Delivered
variable {σ σ' : State T R}

theorem of_forwarded {k : Sink T R} {sinks : SinkId → Sink T R} {s : SinkId}
    (hk : k.forwarded = (sinks s).forwarded) (s' : SinkId) :
    (Function.update sinks s k s').forwarded = (sinks s').forwarded := by
  by_cases hs : s' = s
  · subst hs; simpa using hk
  · simp [hs]

/-- A step that leaves the worker's thread and what is forwarded alone. -/
theorem frame (h : Delivered σ) (hexecuted : σ'._bg.executed = σ._bg.executed)
    (hfinished : σ'._bg.finished = σ._bg.finished) (hpc : σ'.pc = σ.pc)
    (hv : σ'._sinks = σ._sinks) (hk : ∀ s, (σ'.sinks s).forwarded = (σ.sinks s).forwarded) :
    Delivered σ' where
  subscribers := by rw [hexecuted, hfinished, hpc, hv]; exact h.subscribers
  forwarded := fun s => by rw [hexecuted, hpc, hv, hk]; exact h.forwarded s

/-- The vector shrinks after the worker's thread is through. -/
theorem tail (h : Delivered σ) (hfinished : σ._bg.finished = true) (hpc : σ.pc = .run)
    (v : List SinkId) : Delivered { σ with _sinks := v } where
  subscribers := fun hf => by simp [hfinished] at hf
  forwarded := fun s => by simpa [hpc, WorkerPc.forwarded] using h.forwarded s

theorem clientStep (h : Delivered σ) (ho : Owned σ) (hd : Shutdown σ) {c : ClientId}
    {fresh : SinkId} (hs : ClientStep c fresh σ σ') : Delivered σ' := by
  -- The vector is the client's only once the worker's thread is through.
  have hthrough : (σ.clients c).pc.destroysSinks = true → σ._bg.finished = true ∧
      σ.pc = .run := fun hc => by
    have hfinished := ho.registered.deleted (hd.deleted c hc)
    exact ⟨hfinished, ho.worker.run_of_finished hfinished⟩
  cases hs with
  | @make real_sink call _ hpc hprogram hfresh =>
      refine h.frame rfl rfl rfl rfl (of_forwarded ?_)
      rw [ho.held.unmade fresh hfresh]
      rfl
  | lock => exact h.frame rfl rfl rfl rfl (of_forwarded rfl)
  | releaseShared =>
      refine h.frame rfl rfl rfl rfl fun s' => ?_
      rw [sinks_release]
      exact of_forwarded (by rfl) s'
  | async => exact h.frame rfl rfl rfl rfl (of_forwarded (Sink.forwarded_async _ _ _))
  | @releaseLast s =>
      exact h.frame rfl rfl rfl rfl (of_forwarded (σ.sinks s).forwarded_close)
  | @join s =>
      refine h.frame rfl rfl rfl rfl fun s' => ?_
      rw [sinks_destroySink_release]
      exact of_forwarded (by rfl) s'
  | destroyShared hpc =>
      obtain ⟨hfinished, hrun⟩ := hthrough (by rw [hpc]; rfl)
      exact h.tail hfinished hrun _
  | @destroyLast s rest hpc =>
      obtain ⟨hfinished, hrun⟩ := hthrough (by rw [hpc]; rfl)
      exact (h.tail hfinished hrun rest).frame rfl rfl rfl rfl
        (of_forwarded (σ.sinks s).forwarded_close)
  | _ => exact h.frame rfl rfl rfl rfl fun _ => rfl

theorem sinkStep (h : Delivered σ) {s : SinkId} (hs : SinkStep s σ σ') : Delivered σ' := by
  cases hs with
  | turn hcreated hturn | value hcreated hturn =>
      refine h.frame rfl rfl rfl rfl (of_forwarded ?_)
      rw [Sink.forwarded, (Sink.turn_frame hturn).2.2.2]
      rfl

theorem overlay (h : Delivered σ) (hs : Overlay σ σ') : Delivered σ' := by
  cases hs with
  | keep => exact h.frame rfl rfl rfl rfl fun _ => rfl
  | send => exact h.frame rfl rfl rfl rfl fun _ => rfl

/-- A callback of the worker returns: the registry has taken its task. -/
theorem ret (h : Delivered σ) (ho : Owned σ) {task : Callback WorkerTask} {v : List SinkId}
    (hfunc : σ.pc.func = some task)
    (hv : v = (replay (events σ._bg.executed ++ events [task])).subscribers)
    (hdelivered : ∀ s, σ.pc.forwarded σ._sinks (replay (events σ._bg.executed)).subscribers s =
      [] ∧ (replay (events σ._bg.executed ++ events [task])).delivered s =
        (replay (events σ._bg.executed)).delivered s ∨
      (replay (events σ._bg.executed ++ events [task])).delivered s =
        (replay (events σ._bg.executed)).delivered s ++
          σ.pc.forwarded σ._sinks (replay (events σ._bg.executed)).subscribers s) :
    Delivered { σ.ret with _sinks := v } := by
  have hexecuted : events σ._bg.ret.executed = events σ._bg.executed ++ events [task] := by
    simp [Active.ret, ho.worker.func.trans hfunc]
  refine ⟨fun _ _ => ?_, fun s => ?_⟩
  · simp only [State.ret, hexecuted]
    exact hv
  · simp only [State.ret, hexecuted, WorkerPc.forwarded, List.append_nil]
    rw [h.forwarded s]
    rcases hdelivered s with ⟨hnil, hsame⟩ | hmore
    · rw [hnil, hsame, List.append_nil]
    · rw [hmore]

/-- The loop over the sinks goes on to the next index. -/
theorem mem_take_succ {v : List SinkId} {i : ℕ} {s : SinkId} (hs : v[i]? = some s)
    (s' : SinkId) : s' ∈ v.take (i + 1) ↔ s' ∈ v.take i ∨ s' = s := by
  rw [List.take_add_one, hs]
  simp

/-- One sink is sent a message by the loop. -/
theorem forward {i : ℕ} {s : SinkId} {msg : LogMessage} {del : SinkId → List LogMessage}
    (hnodup : σ._sinks.Nodup) (hs : σ._sinks[i]? = some s)
    (hdel : ∀ s', (σ.sinks s').forwarded =
      del s' ++ if s' ∈ σ._sinks.take i then [msg] else []) (s' : SinkId) :
    (Function.update σ.sinks s ((σ.sinks s).send msg) s').forwarded =
      del s' ++ if s' ∈ σ._sinks.take (i + 1) then [msg] else [] := by
  by_cases hss : s' = s
  · subst hss
    have hnew : s' ∉ σ._sinks.take i := by
      intro hmem
      obtain ⟨j, hj, hget⟩ := List.mem_take_iff_getElem.mp hmem
      obtain ⟨hi, hget'⟩ := List.getElem?_eq_some_iff.mp hs
      have := (List.Nodup.getElem_inj_iff hnodup).mp (hget.trans hget'.symm)
      omega
    simp [hdel s', hnew, mem_take_succ hs]
  · simp [hss, hdel s', mem_take_succ hs]

theorem workerStep (h : Delivered σ) (ho : Owned σ) (hs : WorkerStep σ σ') : Delivered σ' := by
  have hrunning := hs.not_finished ho.worker
  have hnodup := ho.registered.nodup
  -- The loop over the sinks has come to its end.
  have htake {i : ℕ} (hi : σ._sinks[i]? = none) : σ._sinks.take i = σ._sinks :=
    List.take_of_length_le (List.getElem?_eq_none_iff.mp hi)
  cases hs with
  | exit hpc hexit =>
      obtain ⟨-, -, -, rfl⟩ := Active.exit_eq_some hexit
      exact ⟨nofun, fun s => by simpa [hpc, WorkerPc.forwarded] using h.forwarded s⟩
  | @pop bg c hpc hpop hfunc =>
      obtain ⟨-, -, -, -, -, rfl⟩ := Active.pop_eq_some hpop
      have hsame := h.subscribers hrunning (by simp [hpc, WorkerPc.clears])
      refine ⟨fun _ _ => hsame, fun s => ?_⟩
      have hnil : (State.enter c).forwarded σ._sinks
          (replay (events σ._bg.executed)).subscribers s = [] := by
        cases c with
        | work task => cases task <;> simp [State.enter, WorkerPc.forwarded]
        | done => rfl
      dsimp only
      rw [hnil]
      simpa [hpc, WorkerPc.forwarded] using h.forwarded s
  | @bgSave msg i s hpc hs =>
      have hsame := h.subscribers hrunning (by simp [hpc, WorkerPc.clears])
      refine ⟨fun _ _ => hsame, forward hnodup hs fun s' => ?_⟩
      simpa [hpc, WorkerPc.forwarded] using h.forwarded s'
  | @bgSaveEnd msg i hpc hs =>
      have hsame := h.subscribers hrunning (by simp [hpc, WorkerPc.clears])
      refine h.ret ho (by rw [hpc]; rfl) ?_ fun s => .inr ?_
      · simpa [WorkerTask.event, Registry.step] using hsame
      · simp [hpc, WorkerPc.forwarded, WorkerTask.event, Registry.step, htake hs, ← hsame]
  | @addSink s hpc =>
      have hsame := h.subscribers hrunning (by simp [hpc, WorkerPc.clears])
      refine h.ret ho (by rw [hpc]; rfl) ?_ fun s' => .inl ⟨?_, ?_⟩
      · simp [WorkerTask.event, Registry.step, hsame]
      · simp [hpc, WorkerPc.forwarded]
      · simp [WorkerTask.event, Registry.step]
  | @shutDownLogging msg hpc =>
      have hsame := h.subscribers hrunning (by simp [hpc, WorkerPc.clears])
      exact ⟨fun _ _ => hsame, fun s => by simpa [hpc, WorkerPc.forwarded] using h.forwarded s⟩
  | @bgFatal msg i s hpc hs =>
      have hsame := h.subscribers hrunning (by simp [hpc, WorkerPc.clears])
      refine ⟨fun _ _ => hsame, forward hnodup hs fun s' => ?_⟩
      simpa [hpc, WorkerPc.forwarded] using h.forwarded s'
  | @bgFatalEnd msg i hpc hs =>
      have hsame := h.subscribers hrunning (by simp [hpc, WorkerPc.clears])
      refine ⟨fun _ hc => by simp [WorkerPc.clears] at hc, fun s => ?_⟩
      simpa [hpc, WorkerPc.forwarded, htake hs, ← hsame] using h.forwarded s
  | @clearShared fatal s rest hpc hsinks hstrong =>
      refine ⟨fun _ hc => by simp [hpc, WorkerPc.clears] at hc, fun s' => ?_⟩
      cases fatal <;> simpa [hpc, WorkerPc.forwarded] using h.forwarded s'
  | @clearLast fatal s rest hpc hsinks hstrong =>
      refine ⟨fun _ hc => by simp [WorkerPc.clears] at hc, fun s' => ?_⟩
      refine (of_forwarded (σ.sinks s).forwarded_close s').trans ?_
      cases fatal <;> simpa [hpc, WorkerPc.forwarded] using h.forwarded s'
  | clearEnd hpc hsinks =>
      refine h.ret ho (by rw [hpc]; rfl) ?_ fun s => .inl ⟨?_, ?_⟩
      · simp [WorkerTask.event, Registry.step, hsinks]
      · simp [hpc, WorkerPc.forwarded]
      · simp [WorkerTask.event, Registry.step]
  | @clearEndFatal msg hpc hsinks =>
      refine ⟨fun _ hc => by simp [WorkerPc.clears] at hc, fun s => ?_⟩
      simpa [hpc, WorkerPc.forwarded] using h.forwarded s
  | @join s fatal hpc hfinished =>
      refine ⟨fun _ hc => by simp [WorkerPc.clears] at hc, fun s' => ?_⟩
      refine (of_forwarded (by rfl) s').trans ?_
      cases fatal <;> simpa [State.destroySink, hpc, WorkerPc.forwarded] using h.forwarded s'
  | exitWithDefaultSignalHandler hpc => exact h.frame rfl rfl rfl rfl fun _ => rfl
  | done hpc =>
      have hsame := h.subscribers hrunning (by simp [hpc, WorkerPc.clears])
      refine h.ret ho (by rw [hpc]; rfl) ?_ fun s => .inl ⟨?_, ?_⟩
      · simpa using hsame
      · simp [hpc, WorkerPc.forwarded]
      · simp

theorem step (h : Delivered σ) (ho : Owned σ) (hd : Shutdown σ) {a : Action}
    (hs : Step σ a σ') : Delivered σ' := by
  rcases hs.data with ⟨c, fresh, hs⟩ | hs | ⟨s, hs⟩ | hs
  · exact h.clientStep ho hd hs
  · exact h.workerStep ho hs
  · exact h.sinkStep hs
  · exact h.overlay hs

theorem init (programs : ClientId → List (Op T R)) (active : Bool) :
    Delivered (G3log.init programs active) :=
  ⟨fun _ _ => rfl, fun _ => rfl⟩

end Delivered

theorem delivered {Ok : State T R → Action → Prop} {σ : State T R}
    (h : (logWorker T R).ReachableBy Ok σ) : Delivered σ := by
  refine h.invariant ?_ fun σ a σ' hr _ hσ hs =>
    hσ.step (owned hr) (shutdown hr) (step_cases hs).2
  rintro _ ⟨programs, active, rfl⟩
  exact Delivered.init programs active

/-! ## Between the queue and the sinks -/

namespace State

/-- The messages enqueued for a sink: after its add task, and before the next task that
clears the sinks or the end of the worker's thread. -/
def enqueuedFor (σ : State T R) (s : SinkId) : List LogMessage :=
  publishedFor s ((Active.untilDone σ._bg.sent).map WorkerTask.event)

end State

section Reachable
variable {Ok : State T R → Action → Prop} {σ σ' : State T R}

/-- A sink is added at most once, by any part of the queue. -/
theorem once_events (h : (logWorker T R).ReachableBy Ok σ) (s : SinkId)
    {cs : List (Callback WorkerTask)} (hcs : cs <+: σ._bg.sent) : Once s (events cs) := by
  rw [Once, countP_events]
  exact (hcs.sublist.count_le _).trans ((owned h).registered.once s)

/-- What is forwarded to a sink is published for it by the tasks executed so far and
the one in progress. -/
theorem forwarded_isPrefix (h : (logWorker T R).ReachableBy Ok σ) (s : SinkId) :
    (σ.sinks s).forwarded <+:
      publishedFor s (events (σ._bg.executed ++ σ._bg.func.toList)) := by
  have ho := owned h
  have hd := delivered h
  have hprefix : σ._bg.executed ++ σ._bg.func.toList <+: σ._bg.sent := List.prefix_append _ _
  have honce := once_events h s hprefix
  have hgrows : (replay (events σ._bg.executed)).delivered s <+:
      publishedFor s (events (σ._bg.executed ++ σ._bg.func.toList)) := by
    rw [delivered_eq (once_events h s σ._bg.executed_isPrefix)]
    exact publishedFor_isPrefix s (by simp)
  -- The task in progress publishes a message, and has got as far as the sink or not.
  have hpublish {msg : LogMessage} {task : WorkerTask} (hfunc : σ.pc.func = some (.work task))
      (hevent : task.event = .publish msg) {p : Prop} [Decidable p]
      (hp : p → s ∈ (replay (events σ._bg.executed)).subscribers) :
      (replay (events σ._bg.executed)).delivered s ++ (if p then [msg] else []) <+:
        publishedFor s (events (σ._bg.executed ++ σ._bg.func.toList)) := by
    by_cases hps : p
    · rw [← delivered_eq honce, ho.worker.func, hfunc, events_append, Option.toList_some,
        events_work, hevent, replay_concat]
      simp [Registry.step, hp hps, hps]
    · simpa [hps] using hgrows
  have hvector (hclears : σ.pc.clears = false) (hfunc : σ.pc.func ≠ none) {i : ℕ}
      (hs : s ∈ σ._sinks.take i) : s ∈ (replay (events σ._bg.executed)).subscribers := by
    rw [← hd.subscribers ?_ hclears]
    · exact List.mem_of_mem_take hs
    · by_contra hfin
      rw [ho.worker.run_of_finished (Bool.eq_true_of_not_eq_false hfin)] at hfunc
      exact hfunc rfl
  rw [hd.forwarded s]
  cases hpc : σ.pc with
  | run | addSink | shutDownLogging | done => simpa [WorkerPc.forwarded] using hgrows
  | bgSave msg i | bgFatal msg i =>
      rw [hpc] at hpublish hvector
      exact hpublish rfl rfl (hvector rfl (by simp [WorkerPc.func]))
  | exitWithDefaultSignalHandler msg =>
      rw [hpc] at hpublish
      exact hpublish rfl rfl id
  | clear fatal | join _ fatal =>
      rw [hpc] at hpublish
      cases fatal with
      | none => simpa [WorkerPc.forwarded] using hgrows
      | some msg => exact hpublish rfl rfl id

theorem forwarded_prefix_enqueuedFor (h : (logWorker T R).ReachableBy Ok σ) (s : SinkId) :
    (σ.sinks s).forwarded <+: σ.enqueuedFor s :=
  (forwarded_isPrefix h s).trans
    (publishedFor_isPrefix s ((owned h).worker.sound.work_isPrefix.map _))

/-- A log call has run on messages enqueued for the sink, in their order and one by one. -/
theorem logged_prefix_enqueuedFor (h : (logWorker T R).ReachableBy Ok σ) (s : SinkId) :
    (σ.sinks s).logged <+: σ.enqueuedFor s :=
  (σ.sinks s).logged_isPrefix.trans (forwarded_prefix_enqueuedFor h s)

/-- Once the worker's thread has returned, all that was enqueued is forwarded. -/
theorem forwarded_of_finished (h : (logWorker T R).ReachableBy Ok σ)
    (hfinished : σ._bg.finished = true) (s : SinkId) :
    (σ.sinks s).forwarded = σ.enqueuedFor s := by
  have ho := owned h
  have hdone := ho.worker.sound.done_of_finished hfinished
  rw [(delivered h).forwarded s, ho.worker.run_of_finished hfinished,
    delivered_eq (once_events h s σ._bg.executed_isPrefix), events,
    ho.worker.sound.work_of_done hdone]
  simp [WorkerPc.forwarded, State.enqueuedFor]

/-- A sink that nobody holds or waits for has run everything sent to it. -/
theorem drained (h : (logWorker T R).ReachableBy Ok σ) {s : SinkId}
    (hstrong : ¬ Strong σ._sinks σ.sinks s) (hjoining : ¬ Joining σ.pc σ.clients s) :
    (σ.sinks s)._bg.executed = (σ.sinks s)._bg.sent := by
  have ho := owned h
  by_cases hcreated : (σ.sinks s).created = true
  · obtain ⟨hclosed, hend⟩ := (ho.life s).closed hcreated hstrong
    have hsound := (ho.life s).sound
    exact (hclosed.drained hsound (hsound.done_of_finished (hend.resolve_right hjoining))).1
  · rw [ho.held.unmade s (Bool.eq_false_of_not_eq_true hcreated)]
    rfl

end Reachable

/-- What has been enqueued stays enqueued. -/
theorem Step.sent_isPrefix {σ σ' : State T R} {a : Action} (hs : Step σ a σ') :
    σ._bg.sent <+: σ'._bg.sent := by
  have hsend (c : Callback WorkerTask) : σ._bg.sent <+: (σ._bg.send c).sent := by simp
  rcases hs.data with ⟨c, fresh, hs⟩ | hs | ⟨s, hs⟩ | hs
  · cases hs with
    | sendSave | sendAdd | sendClear | resetBg => exact hsend _
    | _ => exact List.prefix_rfl
  · cases hs with
    | exit hpc hexit => exact (Active.sent_exit hexit) ▸ List.prefix_rfl
    | pop hpc hpop => exact (Active.sent_pop hpop) ▸ List.prefix_rfl
    | bgSaveEnd | addSink | clearEnd | done => exact σ._bg.sent_ret.symm ▸ List.prefix_rfl
    | _ => exact List.prefix_rfl
  · cases hs with
    | turn | value => exact List.prefix_rfl
  · cases hs with
    | keep => exact List.prefix_rfl
    | send => exact hsend _

theorem enqueuedFor_isPrefix {Ok : State T R → Action → Prop} {σ σ' : State T R}
    (h : (logWorker T R).LeadsBy Ok σ σ') (s : SinkId) :
    σ.enqueuedFor s <+: σ'.enqueuedFor s := by
  refine h.related (r := fun σ σ' => σ.enqueuedFor s <+: σ'.enqueuedFor s)
    (fun _ => List.prefix_rfl) (fun _ _ _ => List.IsPrefix.trans) fun σ₁ a σ₂ _ hs => ?_
  obtain ⟨cs, hcs⟩ := (step_cases hs).2.sent_isPrefix
  refine publishedFor_isPrefix s (List.IsPrefix.map _ ?_)
  rw [← hcs]
  exact Active.untilDone_prefix_append _ _

/-! ## The whole pipeline -/

namespace ClientPc

/-- Inside `addSink` or `SinkHandle::call`. -/
def usesSink : ClientPc T R → Bool
  | .addSink _ | .sendAdd _ | .waitAdd _ | .async _ _ _ | .release _ .addSink | .release _ .call
  | .join _ .addSink | .join _ .call => true
  | _ => false

end ClientPc

section Reachable
variable {Ok : State T R → Action → Prop} {σ σ' : State T R}

/-- Ahead of the clear task and of the end of the thread, a save puts its message behind the
other tasks, none of which clears the sinks. -/
theorem untilDone_save (hdone : .done ∉ σ._bg.sent) (hclear : .work .clearSinks ∉ σ._bg.sent)
    {c : ClientId} {msg : LogMessage} (hpc : (σ.clients c).pc = .save msg) {fresh : SinkId}
    (hs : step σ (.client c fresh) = some σ') :
    Active.untilDone σ'._bg.sent = Active.untilDone σ._bg.sent ++ [.bgSave msg] ∧
      Active.untilDone σ._bg.sent = workOf σ._bg.sent ∧
      .clearSinks ∉ Active.untilDone σ._bg.sent := by
  have hsent : σ'._bg.sent = σ._bg.sent ++ [.work (.bgSave msg)] := by
    cases (step_cases hs).2 with
    | client _ hs =>
        cases hs with
        | sendSave hpc' =>
            obtain rfl := ClientPc.save.inj (hpc.symm.trans hpc')
            simp
        | destroyShared hpc' => simp [hpc] at hpc'
        | _ hpc' => simp [hpc] at hpc'
  have hopen : Active.untilDone σ._bg.sent = workOf σ._bg.sent := by
    rw [← List.append_nil σ._bg.sent, Active.untilDone_append hdone]
    simp [Active.untilDone]
  refine ⟨?_, hopen, ?_⟩
  · rw [hopen, hsent, Active.untilDone_append hdone]
    rfl
  · rw [hopen]
    exact fun hmem => hclear (Active.mem_workOf.mp hmem)

/-- A save behind the add task of a sink, and ahead of the clear task and of the end of the
thread, is enqueued for the sink. -/
theorem enqueuedFor_save {s : SinkId} (hadd : .work (.addSink s) ∈ σ._bg.sent)
    (hdone : .done ∉ σ._bg.sent) (hclear : .work .clearSinks ∉ σ._bg.sent) {c : ClientId}
    {msg : LogMessage} (hpc : (σ.clients c).pc = .save msg) {fresh : SinkId}
    (hs : step σ (.client c fresh) = some σ') :
    σ'.enqueuedFor s = σ.enqueuedFor s ++ [msg] := by
  obtain ⟨hnew, hopen, hnone⟩ := untilDone_save hdone hclear hpc hs
  rw [State.enqueuedFor, State.enqueuedFor, hnew, List.map_append]
  refine publishedFor_concat ?_ (fun e he => ?_) msg
  · rw [hopen]
    exact (any_events_iff s σ._bg.sent).mpr hadd
  · obtain ⟨task, htask, rfl⟩ := List.mem_map.mp he
    cases task with
    | clearSinks => exact absurd htask hnone
    | _ => rfl

/-- So is a save after `addSink` has returned and before the destructor begins. -/
theorem enqueuedFor_save_handle (h : (logWorker T R).ReachableBy Ok σ) {s : SinkId}
    (hhandle : (σ.sinks s).handle = true) (hbefore : σ.destroying = false) {c : ClientId}
    {msg : LogMessage} (hpc : (σ.clients c).pc = .save msg) {fresh : SinkId}
    (hs : step σ (.client c fresh) = some σ') :
    σ'.enqueuedFor s = σ.enqueuedFor s ++ [msg] := by
  obtain ⟨-, -, -, hdone, hclear, -⟩ := (shutdown h).before hbefore
  have hadd := ((shutdown h).handle s hhandle).resolve_right (by simp [hbefore])
  exact enqueuedFor_save (σ._bg.executed_isPrefix.subset hadd) hdone hclear hpc hs

/-- With no client inside `addSink`, `SinkHandle::call` or the destructor, nobody holds or
waits for a sink that has left the vector. -/
theorem unreferred_of_quiet (h : (logWorker T R).ReachableBy Ok σ)
    (hquiet : ∀ c, (σ.clients c).pc.usesSink = false)
    (houtside : ∀ c, (σ.clients c).pc.destructs = false) {s : SinkId} (hs : s ∉ σ._sinks)
    (hjoins : σ.pc.joins ≠ some s) :
    ¬ Strong σ._sinks σ.sinks s ∧ ¬ Joining σ.pc σ.clients s := by
  have hholds : ∀ c, (σ.clients c).pc.holds = none ∧ (σ.clients c).pc.joins = none := by
    intro c
    have hc := hquiet c
    have hd := houtside c
    cases hpc : (σ.clients c).pc with
    | release s role | join s role =>
        cases role <;> simp_all [ClientPc.usesSink, ClientPc.destructs]
    | _ => simp_all [ClientPc.usesSink, ClientPc.holds, ClientPc.joins]
  constructor
  · rintro (hv | ⟨c, hc⟩)
    · exact hs hv
    · simp [(owned h).held.temps_iff c s, (hholds c).1] at hc
  · rintro (hj | ⟨c, hc⟩)
    · exact hjoins hj
    · simp [(hholds c).2] at hc

/-- Such a sink has run everything sent to it. -/
theorem drained_of_quiet (h : (logWorker T R).ReachableBy Ok σ)
    (hquiet : ∀ c, (σ.clients c).pc.usesSink = false)
    (houtside : ∀ c, (σ.clients c).pc.destructs = false) {s : SinkId} (hs : s ∉ σ._sinks)
    (hjoins : σ.pc.joins ≠ some s) : (σ.sinks s)._bg.executed = (σ.sinks s)._bg.sent := by
  obtain ⟨hstrong, hjoining⟩ := unreferred_of_quiet h hquiet houtside hs hjoins
  exact drained h hstrong hjoining

/-- After the destructor no sink that no client is busy with is referred to. -/
theorem unreferred_of_destroyed (h : (logWorker T R).ReachableBy Ok σ)
    (hdestroyed : σ.destroyed = true) (hquiet : ∀ c, (σ.clients c).pc.usesSink = false)
    (s : SinkId) : ¬ Strong σ._sinks σ.sinks s ∧ ¬ Joining σ.pc σ.clients s := by
  have ho := owned h
  obtain ⟨hdel, hsinks, hall⟩ := (shutdown h).returned hdestroyed
  have hrun := ho.worker.run_of_finished (ho.registered.deleted hdel)
  exact unreferred_of_quiet h hquiet hall (by simp [hsinks]) (by simp [hrun, WorkerPc.joins])

/-- After the destructor every sink that no client is busy with has run everything. -/
theorem drained_of_destroyed (h : (logWorker T R).ReachableBy Ok σ)
    (hdestroyed : σ.destroyed = true) (hquiet : ∀ c, (σ.clients c).pc.usesSink = false)
    (s : SinkId) : (σ.sinks s).logged = σ.enqueuedFor s := by
  have hfinished := (owned h).registered.deleted ((shutdown h).returned hdestroyed).1
  obtain ⟨hstrong, hjoining⟩ := unreferred_of_destroyed h hdestroyed hquiet s
  rw [← forwarded_of_finished h hfinished s]
  exact Sink.flushed_of_executed (drained h hstrong hjoining)

end Reachable

/-- Delivery, for any clients and fatal events. What a sink's log call has run on is at
every moment a prefix of the messages enqueued for it; those include every save after
`addSink` has returned and before the destructor begins, and every save behind the add task
while no clear task and no end of the thread is in the queue, and only grow; and once the
destructor has returned, with no client inside `addSink` or `SinkHandle::call`, the log call
has run on all of them. -/
theorem pipeline_delivers {σ : State T R} (h : (logWorker T R).Reachable σ) (s : SinkId) :
    (σ.sinks s).logged <+: σ.enqueuedFor s ∧
      (∀ c msg fresh σ', (σ.sinks s).handle = true → σ.destroying = false →
        (σ.clients c).pc = .save msg → step σ (.client c fresh) = some σ' →
          σ'.enqueuedFor s = σ.enqueuedFor s ++ [msg]) ∧
      (∀ c msg fresh σ', .work (.addSink s) ∈ σ._bg.sent → .work .clearSinks ∉ σ._bg.sent →
        .done ∉ σ._bg.sent → (σ.clients c).pc = .save msg →
          step σ (.client c fresh) = some σ' →
            σ'.enqueuedFor s = σ.enqueuedFor s ++ [msg]) ∧
      (∀ σ', (logWorker T R).LeadsBy (fun _ _ => True) σ σ' →
        σ.enqueuedFor s <+: σ'.enqueuedFor s) ∧
      (σ.destroyed = true → (∀ c, (σ.clients c).pc.usesSink = false) →
        (σ.sinks s).logged = σ.enqueuedFor s) := by
  refine ⟨logged_prefix_enqueuedFor h s, ?_, ?_, fun σ' hl => enqueuedFor_isPrefix hl s, ?_⟩
  · intro c msg fresh σ' hhandle hbefore hpc hs
    exact enqueuedFor_save_handle h hhandle hbefore hpc hs
  · intro c msg fresh σ' hadd hclear hdone hpc hs
    exact enqueuedFor_save hadd hdone hclear hpc hs
  · intro hdestroyed hquiet
    exact drained_of_destroyed h hdestroyed hquiet s

/-- One client destroys the worker, one adds a sink, one saves a message. -/
def crew : ClientId → List (Op Unit Unit)
  | 0 => [.destroy]
  | 1 => [.addSink () fun _ real_sink => real_sink]
  | 2 => [.save greeting]
  | _ => []

/-- The sink is added and its handle returned. -/
def addRun : List Action :=
  [.client 1 0, .client 1 0, .client 1 0, .worker, .worker, .client 1 0, .client 1 0]

/-- The message goes through both queues, and the worker is destroyed. -/
def deliverRun : List Action :=
  addRun ++ [.client 2 0, .client 2 0, .worker, .worker, .worker, .client 0 0, .client 0 0,
    .worker, .worker, .sink 0, .sink 0, .sink 0, .sink 0, .sink 0, .worker, .worker, .client 0 0,
    .client 0 0, .worker, .worker, .worker, .client 0 0, .client 0 0]

theorem pipeline_delivers_greeting :
    ∃ σ : State Unit Unit, σ.destroyed = true ∧ (σ.sinks 0).logged = [greeting] ∧
      (σ.sinks 0).logged <+: σ.enqueuedFor 0 ∧
      (∀ c msg fresh σ', (σ.sinks 0).handle = true → σ.destroying = false →
        (σ.clients c).pc = .save msg → step σ (.client c fresh) = some σ' →
          σ'.enqueuedFor 0 = σ.enqueuedFor 0 ++ [msg]) ∧
      (∀ c msg fresh σ', .work (.addSink 0) ∈ σ._bg.sent → .work .clearSinks ∉ σ._bg.sent →
        .done ∉ σ._bg.sent → (σ.clients c).pc = .save msg →
          step σ (.client c fresh) = some σ' →
            σ'.enqueuedFor 0 = σ.enqueuedFor 0 ++ [msg]) ∧
      (∀ σ', (logWorker Unit Unit).LeadsBy (fun _ _ => True) σ σ' →
        σ.enqueuedFor 0 <+: σ'.enqueuedFor 0) ∧
      (σ.destroyed = true → (∀ c, (σ.clients c).pc.usesSink = false) →
        (σ.sinks 0).logged = σ.enqueuedFor 0) := by
  have hrun : ((logWorker Unit Unit).runBy (fun _ _ => true) (init crew true) deliverRun).any
      (fun σ => σ.destroyed && decide ((σ.sinks 0).logged = [greeting])) = true := by
    decide +kernel
  have hstart : (logWorker Unit Unit).Start (init crew true) := ⟨crew, true, rfl⟩
  obtain ⟨σ, hσ, hp⟩ := System.exists_reachableBy hstart hrun
  simp only [Bool.and_eq_true, decide_eq_true_eq] at hp
  exact ⟨σ, hp.1, hp.2, pipeline_delivers hσ.reachable 0⟩

/-! ### Where delivery ends -/

/-- No fatal event, and no `addSink` begun after the destructor. -/
def peaceful (σ : State T R) : Action → Bool
  | .client c _ =>
      match (σ.clients c).pc, (σ.clients c).program with
      | .idle, .fatal _ :: _ => false
      | .idle, .addSink _ _ :: _ => !σ.destroying
      | _, _ => true
  | .worker | .sink _ => true
  | _ => false

/-- The messages enqueued after a sink's add task and before the destructor's clear task. -/
def State.enqueuedBetween (σ : State T R) (s : SinkId) : List LogMessage :=
  published (after s (((workOf σ._bg.sent).takeWhile (· ≠ .clearSinks)).map WorkerTask.event))

namespace ClientPc

/-- The message a client is about to enqueue. -/
def saves : ClientPc T R → Option LogMessage
  | .save msg => some msg
  | _ => none

theorem eq_save_of_saves {pc : ClientPc T R} {msg : LogMessage} (h : pc.saves = some msg) :
    pc = .save msg := by
  cases pc <;> simp_all [saves]

/-- Inside `SinkHandle::call`. -/
def calls : ClientPc T R → Bool
  | .async _ _ _ | .release _ .call | .join _ .call => true
  | _ => false

end ClientPc

/-- The add task goes into the queue after the clear task, and the save after it. -/
def lateAddRun : List Action :=
  [.client 1 0, .client 1 0, .client 2 0, .client 0 0, .client 0 0, .client 1 0, .client 2 0,
    .worker, .worker, .worker, .worker, .worker, .worker, .worker, .sink 0, .sink 0]

/-- The sink is added, and the destructor sends its clear task while the client that adds
the sink still holds it. -/
def heldRun : List Action :=
  [.client 1 0, .client 1 0, .client 1 0, .worker, .worker, .client 2 0, .client 2 0, .worker,
    .worker, .worker, .client 0 0, .client 0 0, .worker, .worker, .worker, .client 0 0,
    .client 0 0, .worker, .worker, .worker, .client 0 0, .client 0 0]

/-- Without fatal events, a sink gets messages that were not enqueued between its add task
and the clear task if the add task comes later; a save that is through only after the
destructor has begun may come too late; and the destructor may return before a sink has
run, while the client that adds it still holds it. -/
theorem delivery_ends_early :
    (¬ ∀ σ : State Unit Unit, (logWorker Unit Unit).ReachableBy (peaceful · · = true) σ →
      ∀ s, (σ.sinks s).logged <+: σ.enqueuedBetween s) ∧
    (¬ ∀ σ : State Unit Unit, (logWorker Unit Unit).ReachableBy (peaceful · · = true) σ →
      ∀ s c msg, (σ.sinks s).handle = true → σ.destroying = false →
        (σ.clients c).pc = .save msg → ∀ σ₁,
          (logWorker Unit Unit).LeadsBy (peaceful · · = true) σ σ₁ →
            (σ₁.clients c).pc = .save msg → ∀ fresh σ₂, step σ₁ (.client c fresh) = some σ₂ →
              σ₂.enqueuedBetween s = σ₁.enqueuedBetween s ++ [msg]) ∧
    ¬ ∀ σ : State Unit Unit, (logWorker Unit Unit).ReachableBy (peaceful · · = true) σ →
      σ.destroyed = true → (∀ c, (σ.clients c).pc.calls = false) →
        ∀ s, (σ.sinks s).logged = σ.enqueuedBetween s := by
  have hstart : (logWorker Unit Unit).Start (init crew true) := ⟨crew, true, rfl⟩
  refine ⟨fun h => ?_, fun h => ?_, fun h => ?_⟩
  · have hrun : ((logWorker Unit Unit).runBy peaceful (init crew true) lateAddRun).any (fun σ =>
        decide ((σ.sinks 0).logged = [greeting]) && decide (σ.enqueuedBetween 0 = [])) = true := by
      decide +kernel
    obtain ⟨σ, hσ, hp⟩ := System.exists_reachableBy hstart hrun
    simp only [Bool.and_eq_true, decide_eq_true_eq] at hp
    have := h σ hσ 0
    simp [hp.1, hp.2] at this
  · have hrun : ((logWorker Unit Unit).runBy peaceful (init crew true)
        (addRun ++ [.client 2 0])).any (fun σ => (σ.sinks 0).handle && !σ.destroying &&
          decide ((σ.clients 2).pc.saves = some greeting) &&
          ((logWorker Unit Unit).runBy peaceful σ [.client 0 0, .client 0 0]).any fun σ₁ =>
            decide ((σ₁.clients 2).pc.saves = some greeting) &&
            (step σ₁ (.client 2 0)).any fun σ₂ => decide (σ₂.enqueuedBetween 0 = [])) = true := by
      decide +kernel
    obtain ⟨σ, hσ, hp⟩ := System.exists_reachableBy hstart hrun
    simp only [Bool.and_eq_true, decide_eq_true_eq, Bool.not_eq_true'] at hp
    obtain ⟨⟨⟨hhandle, hbefore⟩, hsave⟩, hrun₁⟩ := hp
    obtain ⟨σ₁, hσ₁, hp₁⟩ := (Option.any_eq_true _ _).mp hrun₁
    simp only [Bool.and_eq_true, decide_eq_true_eq] at hp₁
    obtain ⟨σ₂, hσ₂, hp₂⟩ := (Option.any_eq_true _ _).mp hp₁.2
    have := h σ hσ 0 2 greeting hhandle hbefore (ClientPc.eq_save_of_saves hsave) σ₁
      (System.leadsBy_of_runBy hσ₁) (ClientPc.eq_save_of_saves hp₁.1) 0 σ₂ hσ₂
    simp [of_decide_eq_true hp₂] at this
  · have hrun : ((logWorker Unit Unit).runBy peaceful (init crew true) heldRun).any (fun σ =>
        σ.destroyed && decide ((σ.sinks 0).logged = []) &&
          decide (σ.enqueuedBetween 0 = [greeting]) &&
          (List.range 3).all fun c => !(σ.clients c).pc.calls) = true := by
      decide +kernel
    obtain ⟨σ, hσ, hp⟩ := (Option.any_eq_true _ _).mp hrun
    simp only [Bool.and_eq_true, decide_eq_true_eq] at hp
    have hquiet : ∀ c, (σ.clients c).pc.calls = false := fun c => by
      simpa using forall_clients_of_runBy (n := 3) (p := fun k => !k.pc.calls) hσ (by decide)
        (fun _ _ => rfl) hp.2 c
    have := h σ (System.reachableBy_of_runBy (.start hstart) hσ) hp.1.1.1 hquiet 0
    simp [hp.1.1.2, hp.1.2] at this

end G3log
