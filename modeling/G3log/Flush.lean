import G3log.BgFatal

/-!
# What clearing the sinks flushes

`_sinks.clear()` flushes as a side effect: the one that drops the last reference to a
sink runs `~Sink`, which waits for the sink's thread to work off its queue. So clearing
flushes where every reference it drops is the last one. A client inside
`SinkHandle::call` or `addSink` has one of its own, and then the clear just goes on.

## Main definitions

* `clearsLast` -- the steps that keep to what clearing relies on.
* `Clearing`, `clearing` -- the sinks that have left the vector are flushed.
* `clear_flushes` -- the sinks at the end of the clear, by `~LogWorker` and by `bgFatal`.
-/

namespace G3log

open Transition Broadcast

variable {T R : Type}

/-! ## The destructor up to its join -/

namespace ClientPc

/-- Inside `~LogWorker`, while the worker's thread may still run. -/
def beforeJoin : ClientPc T R → Bool
  | .sendClear | .waitClear | .resetBg | .joinBg => true
  | _ => false

/-- At `token_cleared.wait()`. -/
def waitsClear : ClientPc T R → Bool
  | .waitClear => true
  | _ => false

theorem eq_waitClear {pc : ClientPc T R} (h : pc.waitsClear = true) : pc = .waitClear := by
  cases pc <;> simp_all [waitsClear]

theorem destructs_of_beforeJoin {pc : ClientPc T R} (h : pc.beforeJoin = true) :
    pc.destructs = true := by
  cases pc <;> simp_all [beforeJoin, destructs]

end ClientPc

/-- What the destructor knows before it has joined the worker's thread. -/
structure BeforeJoin (σ : State T R) : Prop where
  running : ∀ c, (σ.clients c).pc.beforeJoin = true → σ.bgDeleted = false
  notSent : ∀ c, (σ.clients c).pc = .sendClear → .work .clearSinks ∉ σ._bg.sent

namespace BeforeJoin
variable {σ σ' : State T R}

theorem frame (h : BeforeJoin σ) (hclients : σ'.clients = σ.clients)
    (hdeleted : σ'.bgDeleted = σ.bgDeleted)
    (hsent : .work .clearSinks ∈ σ'._bg.sent → .work .clearSinks ∈ σ._bg.sent) :
    BeforeJoin σ' := by
  refine ⟨?_, ?_⟩
  · rw [hclients, hdeleted]
    exact h.running
  · rw [hclients]
    exact fun c hc hmem => h.notSent c hc (hsent hmem)

/-- A client moves on, and no other one is in the destructor if this one is. -/
theorem move (h : BeforeJoin σ) {c : ClientId} (hothers : ∀ c', c' ≠ c →
      σ'.clients c' = σ.clients c')
    (hdeleted : (σ'.bgDeleted = σ.bgDeleted ∧
        (.work .clearSinks ∈ σ'._bg.sent → .work .clearSinks ∈ σ._bg.sent)) ∨
      ∀ c', c' ≠ c → (σ.clients c').pc.beforeJoin = false)
    (hrunning : (σ'.clients c).pc.beforeJoin = true → σ'.bgDeleted = false)
    (hnotSent : (σ'.clients c).pc = .sendClear → .work .clearSinks ∉ σ'._bg.sent) :
    BeforeJoin σ' := by
  refine ⟨fun c' hc' => ?_, fun c' hc' hmem => ?_⟩
  all_goals by_cases hc : c' = c
  · subst hc
    exact hrunning hc'
  · rw [hothers c' hc] at hc'
    rcases hdeleted with ⟨hdel, -⟩ | hnone
    · rw [hdel]
      exact h.running c' hc'
    · simp [hnone c' hc] at hc'
  · subst hc
    exact hnotSent hc' hmem
  · rw [hothers c' hc] at hc'
    rcases hdeleted with ⟨-, hsent⟩ | hnone
    · exact h.notSent c' hc' (hsent hmem)
    · have := hnone c' hc
      simp [hc', ClientPc.beforeJoin] at this

theorem clientStep (h : BeforeJoin σ) (hd : Shutdown σ) {c : ClientId} {fresh : SinkId}
    (hs : ClientStep c fresh σ σ') : BeforeJoin σ' := by
  have hothers : ∀ c', c' ≠ c → σ'.clients c' = σ.clients c' := fun _ hc => hs.clients_of_ne hc
  have halone (hpc : (σ.clients c).pc.destructs = true) (c' : ClientId) (hc : c' ≠ c) :
      (σ.clients c').pc.beforeJoin = false := by
    by_contra hbefore
    have hdes := ClientPc.destructs_of_beforeJoin (Bool.eq_true_of_not_eq_false hbefore)
    exact hc (hd.unique c c' hpc hdes)
  cases hs with
  | destroy hpc hprogram hfirst =>
      obtain ⟨-, hdel, -, -, hclear, -⟩ := hd.before hfirst
      exact h.move hothers (.inl ⟨rfl, id⟩) (fun _ => hdel) (fun _ => hclear)
  | sendClear hpc =>
      have hdel := h.running c (by rw [hpc]; rfl)
      exact h.move hothers (.inr (halone (by rw [hpc]; rfl))) (fun _ => hdel) (by simp)
  | waitClear hpc | resetBg hpc =>
      have hdel := h.running c (by rw [hpc]; rfl)
      exact h.move hothers (.inr (halone (by rw [hpc]; rfl))) (fun _ => hdel) (by simp)
  | joinBg hpc =>
      refine h.move hothers (.inr (halone (by rw [hpc]; rfl))) ?_ ?_
      all_goals simp [ClientPc.beforeJoin]
  | @releaseShared s role | @join s role =>
      refine h.move hothers (.inl ⟨rfl, id⟩) ?_ ?_
      all_goals
        cases role <;> simp [State.afterRelease, State.destroySink, ClientPc.beforeJoin]
  | destroyShared hpc hsinks =>
      exact h.move hothers (.inl ⟨rfl, id⟩) (h.running c) (h.notSent c)
  | sendSave hpc | sendAdd hpc =>
      refine h.move hothers (.inl ⟨rfl, by simp⟩) ?_ ?_
      all_goals simp [ClientPc.beforeJoin]
  | gone hpc | fatal hpc =>
      refine h.move hothers (.inl ⟨rfl, id⟩) ?_ ?_
      all_goals simp [hpc, ClientPc.beforeJoin]
  | _ hpc =>
      refine h.move hothers (.inl ⟨rfl, id⟩) ?_ ?_
      all_goals simp [ClientPc.beforeJoin]

theorem step (h : BeforeJoin σ) (hd : Shutdown σ) {a : Action} (hs : Step σ a σ') :
    BeforeJoin σ' := by
  rcases hs.data with ⟨c, fresh, hs⟩ | hs | ⟨s, hs⟩ | hs
  · exact h.clientStep hd hs
  · cases hs with
    | exit hpc hexit => exact h.frame rfl rfl (Active.sent_exit hexit ▸ id)
    | pop hpc hpop => exact h.frame rfl rfl (Active.sent_pop hpop ▸ id)
    | bgSaveEnd | addSink | clearEnd | done => exact h.frame rfl rfl (σ._bg.sent_ret ▸ id)
    | _ => exact h.frame rfl rfl id
  · cases hs with
    | turn | value => exact h.frame rfl rfl id
  · cases hs with
    | keep => exact h.frame rfl rfl id
    | send => exact h.frame rfl rfl (by simp)

end BeforeJoin

theorem beforeJoin {Ok : State T R → Action → Prop} {σ : State T R}
    (h : (logWorker T R).ReachableBy Ok σ) : BeforeJoin σ := by
  refine h.invariant ?_ fun σ a σ' hr _ hσ hs => hσ.step (shutdown hr) (step_cases hs).2
  rintro _ ⟨programs, active, rfl⟩
  exact ⟨fun _ _ => rfl, fun _ hc => by simp [init] at hc⟩

/-! ## Sinks out of the vector -/

theorem after_singleton (s : SinkId) (e : Event SinkId LogMessage) : after s [e] = [] := by
  by_cases he : isSubscribe s e = true <;> simp [after, he]

/-- Nothing is forwarded to a sink before the task that adds it has returned. -/
theorem forwarded_of_not_added {Ok : State T R → Action → Prop} {σ : State T R}
    (h : (logWorker T R).ReachableBy Ok σ) {s : SinkId}
    (hs : .work (.addSink s) ∉ σ._bg.executed) : (σ.sinks s).forwarded = [] := by
  have hnone : ∀ e ∈ events σ._bg.executed, isSubscribe s e = false := by
    simpa [← any_events_iff] using hs
  have hafter : after s (events (σ._bg.executed ++ σ._bg.func.toList)) = [] := by
    rw [events_append, after_append_of_forall hnone]
    rcases σ._bg.func with - | - | -
    · rfl
    · exact after_singleton s _
    · rfl
  have hprefix := forwarded_isPrefix h s
  rw [publishedFor, hafter] at hprefix
  exact List.prefix_nil.mp hprefix

namespace ClientStep
variable {c : ClientId} {fresh : SinkId} {σ σ' : State T R}

/-- A client does not move the worker's thread. -/
theorem worker_eq (h : ClientStep c fresh σ σ') :
    σ'.pc = σ.pc ∧ σ'._bg.executed = σ._bg.executed ∧ σ'._bg.func = σ._bg.func := by
  cases h <;> exact ⟨rfl, rfl, rfl⟩

/-- Only at the end of the destructor does a client touch the vector. -/
theorem vector_eq (h : ClientStep c fresh σ σ') (hpc : (σ.clients c).pc ≠ .destroySinks) :
    σ'._sinks = σ._sinks := by
  cases h with
  | destroyShared hpc' | destroyLast hpc' => exact absurd hpc' hpc
  | _ => rfl

theorem bgDeleted_mono (h : ClientStep c fresh σ σ') (hd : σ.bgDeleted = true) :
    σ'.bgDeleted = true := by
  cases h with
  | joinBg => rfl
  | _ => exact hd

theorem waitClear_of (h : ClientStep c fresh σ σ') {c' : ClientId}
    (hc : (σ'.clients c').pc = .waitClear) :
    (σ.clients c').pc = .waitClear ∨ (σ.clients c').pc = .sendClear := by
  by_cases hcc : c' = c
  · subst hcc
    cases h with
    | sendClear hpc => exact .inr hpc
    | destroyShared | destroyLast | destroyEnd | waitClear => simp_all
    | @releaseShared s role | @join s role =>
        cases role <;> simp [State.afterRelease, State.destroySink] at hc
    | _ => simp_all
  · rw [h.clients_of_ne hcc] at hc
    exact .inl hc

/-- A client sends a sink no message, and logs none. -/
theorem logs_eq (h : ClientStep c fresh σ σ') (ho : Owned σ) (s : SinkId) :
    (σ'.sinks s).forwarded = (σ.sinks s).forwarded ∧
      (σ'.sinks s).logged = (σ.sinks s).logged := by
  have update {s₁ : SinkId} {k : Sink T R} (hf : k.forwarded = (σ.sinks s₁).forwarded)
      (hl : k.logged = (σ.sinks s₁).logged) :
      (Function.update σ.sinks s₁ k s).forwarded = (σ.sinks s).forwarded ∧
        (Function.update σ.sinks s₁ k s).logged = (σ.sinks s).logged := by
    by_cases hs : s = s₁
    · subst hs
      simpa using ⟨hf, hl⟩
    · simp [hs]
  cases h with
  | make hpc hprogram hfresh =>
      have hunmade := ho.held.unmade fresh hfresh
      refine update ?_ ?_
      all_goals
        rw [hunmade]
        rfl
  | lock => exact update rfl rfl
  | releaseShared => rw [sinks_release]; exact update (by rfl) (by rfl)
  | async => exact update (Sink.forwarded_async _ _ _) rfl
  | releaseLast | destroyLast => exact update (Sink.forwarded_close _) rfl
  | join => rw [sinks_destroySink_release]; exact update (by rfl) (by rfl)
  | _ => exact ⟨rfl, rfl⟩

end ClientStep

/-- `bgFatal` calls `exitWithDefaultSignalHandler` when the vector is empty. -/
theorem sinks_of_exit {Ok : State T R → Action → Prop} {σ : State T R}
    (h : (logWorker T R).ReachableBy Ok σ) {msg : FatalMessage}
    (hpc : σ.pc = .exitWithDefaultSignalHandler msg) : σ._sinks = [] := by
  revert msg
  refine h.invariant (P := fun σ => ∀ {msg}, σ.pc = .exitWithDefaultSignalHandler msg →
    σ._sinks = []) ?_ fun σ a σ' hr _ hσ hs msg hpc => ?_
  · rintro _ ⟨programs, active, rfl⟩ msg hpc
    rfl
  · rcases (step_cases hs).2.data with ⟨c, fresh, hs⟩ | hs | ⟨s, hs⟩ | hs
    · rw [hs.worker_eq.1] at hpc
      rw [hs.vector_eq fun hdestroy => ?_, hσ hpc]
      have hdel := (shutdown hr).deleted c (by rw [hdestroy]; rfl)
      have hrun := (owned hr).worker.run_of_finished ((owned hr).registered.deleted hdel)
      simp [hpc] at hrun
    · cases hs with
      | clearEndFatal _ hsinks => exact hsinks
      | exitWithDefaultSignalHandler hpc' => exact hσ hpc'
      | exit | clearShared => simp_all
      | @pop bg c =>
          cases c with
          | work task => cases task <;> simp [State.enter] at hpc
          | done => simp [State.enter] at hpc
      | _ => simp [State.ret] at hpc
    · cases hs with
      | turn | value => exact hσ hpc
    · cases hs with
      | keep | send => exact hσ hpc

/-- Where the worker is in a loop over the sinks. -/
def WorkerPc.loop : WorkerPc → Option ℕ
  | .bgSave _ i | .bgFatal _ i => some i
  | _ => none

/-- What clearing relies on. The worker drops a reference to a sink only if no client has
another, or if the sink has nothing left to log; and it forwards nothing between the
destructor's clear task and the return of `token_cleared.wait()`. -/
def clearsLast (σ : State T R) (a : Action) : Prop :=
  a = .worker →
    (∀ fatal s rest, σ.pc = .clear fatal → σ._sinks = s :: rest →
      (σ.sinks s).temps = ∅ ∨ (σ.sinks s).Flushed) ∧
    (∀ i c, σ.pc.loop = some i → i < σ._sinks.length → (σ.clients c).pc = .waitClear →
      .work .clearSinks ∉ σ._bg.executed)

/-- The sinks that have left the vector are flushed or being joined, and those that get
into it after the clear task have nothing to flush. -/
structure Clearing (σ : State T R) : Prop where
  released : σ.bgDeleted = false → ∀ s, s ∉ σ._sinks → σ.pc.joins ≠ some s →
    (σ.sinks s).Flushed
  late : ∀ c, (σ.clients c).pc = .waitClear → .work .clearSinks ∈ σ._bg.executed →
    ∀ s, s ∈ σ._sinks ∨ σ.pc.joins = some s → (σ.sinks s).forwarded = []

namespace Clearing
variable {σ σ' : State T R}

/-- After the worker's thread is joined there is nothing left to say. -/
theorem of_deleted (hb : BeforeJoin σ) (hdel : σ.bgDeleted = true) :
    Clearing σ where
  released := fun hrunning => by simp [hdel] at hrunning
  late := fun c hc => by
    have := hb.running c (by rw [hc]; rfl)
    simp [hdel] at this

theorem clientStep (h : Clearing σ) (ho : Owned σ) (hd : Shutdown σ) (hb : BeforeJoin σ)
    (hb' : BeforeJoin σ') {c : ClientId} {fresh : SinkId}
    (hs : ClientStep c fresh σ σ') : Clearing σ' := by
  by_cases hdel : σ'.bgDeleted = true
  · exact of_deleted hb' hdel
  · have hrunning : σ.bgDeleted = false :=
      Bool.eq_false_of_not_eq_true fun hd => hdel (hs.bgDeleted_mono hd)
    have hv := hs.vector_eq fun hpc => by
      simp [hd.deleted c (by rw [hpc]; rfl)] at hrunning
    obtain ⟨hpc, hexecuted, -⟩ := hs.worker_eq
    refine ⟨fun _ s => ?_, fun c' hc' => ?_⟩
    · rw [hv, hpc, Sink.Flushed, (hs.logs_eq ho s).1, (hs.logs_eq ho s).2]
      exact h.released hrunning s
    · rw [hexecuted, hv, hpc]
      intro hclear s
      rw [(hs.logs_eq ho s).1]
      rcases hs.waitClear_of hc' with hold | hsend
      · exact h.late c' hold hclear s
      · exact absurd (σ._bg.executed_isPrefix.subset hclear) (hb.notSent c' hsend)

theorem sinkStep (h : Clearing σ) {s : SinkId} (hs : SinkStep s σ σ') : Clearing σ' := by
  cases hs with
  | @turn k hcreated hturn | @value k _ _ hcreated hturn =>
      have hsent : k.forwarded = (σ.sinks s).forwarded := by
        rw [Sink.forwarded, (Sink.turn_frame hturn).2.2.2, Sink.forwarded]
      refine ⟨fun hdel s' hv hj => ?_, fun c hc hclear s' hs' => ?_⟩
      all_goals by_cases hss : s' = s
      · subst hss
        simpa using (h.released hdel s' hv hj).turn hturn
      · simpa [hss] using h.released hdel s' hv hj
      · subst hss
        simpa [hsent] using h.late c hc hclear s' hs'
      · simpa [hss] using h.late c hc hclear s' hs'

theorem overlay (h : Clearing σ) (hs : Overlay σ σ') : Clearing σ' := by
  cases hs with
  | keep | send => exact ⟨h.released, h.late⟩

/-- The worker forwards a message to a sink in the vector. -/
theorem forward (h : Clearing σ) {i : ℕ} {s : SinkId} {msg : LogMessage} {pc : WorkerPc}
    (hs : σ._sinks[i]? = some s) (hpc : σ.pc.joins = none)
    (hok : ∀ c, (σ.clients c).pc = .waitClear → .work .clearSinks ∉ σ._bg.executed) :
    Clearing { σ.setSink s ((σ.sinks s).send msg) with pc := pc } where
  released := by
    intro hdel s' hv hj
    have hne : s' ≠ s := by
      rintro rfl
      exact hv (List.mem_of_getElem? hs)
    simpa [hne] using h.released hdel s' hv (by simp [hpc])
  late := fun c hc hclear => absurd hclear (hok c hc)

/-- A callback of the worker returns, or the thread goes on to something else. -/
theorem proceed (h : Clearing σ) {bg : Active WorkerTask} {pc : WorkerPc}
    (hjoins : pc.joins = σ.pc.joins)
    (hclear : .work .clearSinks ∈ bg.executed →
      .work .clearSinks ∈ σ._bg.executed ∨ σ._sinks = [] ∧ pc.joins = none) :
    Clearing { σ with _bg := bg, pc := pc } where
  released := fun hdel s hv hj => h.released hdel s hv (by rwa [← hjoins])
  late := by
    intro c hc hmem s hs
    rcases hclear hmem with hold | ⟨hv, hj⟩
    · exact h.late c hc hold s (by rwa [← hjoins])
    · rw [hv, hj] at hs
      simp at hs

theorem workerStep {Ok : State T R → Action → Prop} (h : Clearing σ)
    (hr : (logWorker T R).ReachableBy Ok σ) (hok : clearsLast σ .worker)
    (hs : WorkerStep σ σ') : Clearing σ' := by
  have ho := owned hr
  have hnodup := ho.registered.nodup
  obtain ⟨hlast, hforward⟩ := hok rfl
  cases hs with
  | exit hpc hexit =>
      obtain ⟨-, -, -, rfl⟩ := Active.exit_eq_some hexit
      exact ⟨h.released, h.late⟩
  | @pop bg c hpc hpop hfunc =>
      obtain ⟨-, -, -, -, -, rfl⟩ := Active.pop_eq_some hpop
      have hjoins : (State.enter c).joins = none := by
        unfold State.enter
        split <;> rfl
      exact h.proceed (by rw [hjoins, hpc]; rfl) .inl
  | @bgSave msg i s hpc hs | @bgFatal msg i s hpc hs =>
      have hi : i < σ._sinks.length := (List.getElem?_eq_some_iff.mp hs).1
      exact h.forward hs (by rw [hpc]; rfl) fun c hc =>
        hforward i c (by rw [hpc]; rfl) hi hc
  | bgSaveEnd hpc | done hpc =>
      refine h.proceed (by rw [hpc]; rfl) fun hmem => .inl ?_
      simpa [Active.ret, ho.worker.func, hpc, WorkerPc.func] using hmem
  | @addSink s hpc =>
      have hfunc : σ._bg.func = some (.work (.addSink s)) := by rw [ho.worker.func, hpc]; rfl
      have hnew : .work (.addSink s) ∉ σ._bg.executed := by
        intro hmem
        have hcount := ho.registered.once s
        have hpos : 0 < σ._bg.executed.count (.work (.addSink s)) := List.count_pos_iff.mpr hmem
        simp only [Active.sent, hfunc, List.count_append, Option.toList_some,
          List.count_singleton_self] at hcount
        omega
      refine ⟨fun hdel s' hv hj => ?_, fun c hc hmem s' hs' => ?_⟩
      · refine h.released hdel s' (fun hv' => hv ?_) (by simp [hpc, WorkerPc.joins])
        exact List.mem_append_left _ hv'
      · have hclear : .work .clearSinks ∈ σ._bg.executed := by
          simpa [State.ret, Active.ret, hfunc] using hmem
        rcases hs' with hs' | hj
        · rcases List.mem_append.mp hs' with hold | hs'
          · exact h.late c hc hclear s' (.inl hold)
          · obtain rfl := List.mem_singleton.mp hs'
            exact forwarded_of_not_added hr hnew
        · simp [State.ret, WorkerPc.joins] at hj
  | shutDownLogging hpc =>
      exact ⟨fun hdel s hv _ => h.released hdel s hv (by simp [hpc, WorkerPc.joins]),
        fun c hc hclear s hs => h.late c hc hclear s (hs.imp_right fun hj => by
          simp [WorkerPc.joins] at hj)⟩
  | bgFatalEnd hpc =>
      exact h.proceed (by rw [hpc]; rfl) .inl
  | @clearShared fatal s rest hpc hsinks hstrong =>
      have hflushed : (σ.sinks s).Flushed := by
        refine (hlast fatal s rest hpc hsinks).resolve_left fun htemps => ?_
        rw [hsinks, List.nodup_cons] at hnodup
        simp [State.strong, htemps, hnodup.1] at hstrong
      refine ⟨fun hdel s' hv hj => ?_, fun c hc hclear s' hs' => ?_⟩
      · by_cases hss : s' = s
        · subst hss
          exact hflushed
        · exact h.released hdel s' (by simpa [hsinks, hss] using hv) hj
      · refine h.late c hc hclear s' (hs'.imp_left fun hmem => ?_)
        rw [hsinks]
        exact List.mem_cons_of_mem _ hmem
  | @clearLast fatal s rest hpc hsinks hstrong =>
      refine ⟨fun hdel s' hv hj => ?_, fun c hc hclear s' hs' => ?_⟩
      · have hne : s' ≠ s := by
          rintro rfl
          exact hj rfl
        have := h.released hdel s' (by simpa [hsinks, hne] using hv)
          (by simp [hpc, WorkerPc.joins])
        simpa [hne] using this
      · have hold : (σ.sinks s').forwarded = [] := by
          refine h.late c hc hclear s' (.inl ?_)
          rw [hsinks]
          rcases hs' with hmem | hj
          · exact List.mem_cons_of_mem _ hmem
          · obtain rfl : s = s' := by simpa [WorkerPc.joins] using hj
            exact List.mem_cons_self
        by_cases hss : s' = s
        · subst hss
          simpa using hold
        · simpa [hss] using hold
  | clearEnd hpc hsinks =>
      refine h.proceed (by rw [hpc]; rfl) fun _ => .inr ⟨hsinks, rfl⟩
  | clearEndFatal hpc hsinks =>
      refine ⟨fun hdel s hv _ => h.released hdel s hv (by simp [hpc, WorkerPc.joins]),
        fun c hc hclear s hs => ?_⟩
      simp [hsinks, WorkerPc.joins] at hs
  | @join s fatal hpc hfinished =>
      have hjoining : Joining σ.pc σ.clients s := .inl (by rw [hpc]; rfl)
      obtain ⟨hcreated, hnot⟩ := (ho.life s).not_strong hjoining
      have hsound := (ho.life s).sound
      have hflushed : (σ.sinks s).Flushed := by
        refine Sink.flushed_of_executed ?_
        exact (((ho.life s).closed hcreated hnot).1.drained hsound
          (hsound.done_of_finished hfinished)).1
      refine ⟨fun hdel s' hv hj => ?_, fun c hc hclear s' hs' => ?_⟩
      all_goals by_cases hss : s' = s
      · subst hss
        simp only [State.destroySink, Function.update_self]
        exact hflushed
      · have hne : σ.pc.joins ≠ some s' := by simpa [hpc, WorkerPc.joins] using Ne.symm hss
        simpa [State.destroySink, hss] using h.released hdel s' hv hne
      · subst hss
        simp only [State.destroySink, Function.update_self]
        exact h.late c hc hclear s' (.inr (by rw [hpc]; rfl))
      · have hold : s' ∈ σ._sinks := by
          simpa [State.destroySink, WorkerPc.joins] using hs'
        simpa [State.destroySink, hss] using h.late c hc hclear s' (.inl hold)
  | exitWithDefaultSignalHandler hpc => exact ⟨h.released, h.late⟩

end Clearing

theorem clearing {σ : State T R} (h : (logWorker T R).ReachableBy clearsLast σ) :
    Clearing σ := by
  refine h.invariant ?_ fun σ a σ' hr hok hσ hs => ?_
  · rintro _ ⟨programs, active, rfl⟩
    exact ⟨fun _ _ _ _ => rfl, fun _ hc => by simp [init] at hc⟩
  · have hr' : (logWorker T R).ReachableBy clearsLast σ' := .step hr hok hs
    cases (step_cases hs).2 with
    | client _ hs =>
        exact hσ.clientStep (owned hr) (shutdown hr) (beforeJoin hr) (beforeJoin hr') hs
    | worker _ hs => exact hσ.workerStep hr hok hs
    | sink _ hs => exact hσ.sinkStep hs
    | fatal hs => exact hσ.overlay hs.overlay
    | signal | raise | fault => exact hσ.overlay (.keep _ _ _)

/-- Clearing flushes, in the runs that keep to what it relies on: when the destructor's
wait for its clear task returns, and when `bgFatal` ends the process, each sink's log call
has run on every message forwarded to it. -/
theorem clear_flushes {σ : State T R} (h : (logWorker T R).ReachableBy clearsLast σ) :
    (∀ c fresh σ', (σ.clients c).pc = .waitClear → step σ (.client c fresh) = some σ' →
      ∀ s, (σ'.sinks s).logged = (σ'.sinks s).forwarded) ∧
    ∀ msg, σ.pc = .exitWithDefaultSignalHandler msg →
      ∀ s, (σ.sinks s).logged = (σ.sinks s).forwarded := by
  have ho := owned h
  have hcl := clearing h
  refine ⟨fun c fresh σ' hpc hs s => ?_, fun msg hpc s => ?_⟩
  · have hrunning := (beforeJoin h).running c (by rw [hpc]; rfl)
    obtain ⟨hclear, hsinks⟩ :
        .work .clearSinks ∈ σ._bg.executed ∧ σ'.sinks = σ.sinks := by
      cases (step_cases hs).2 with
      | client _ hs =>
          cases hs with
          | waitClear _ hready => exact ⟨hready, rfl⟩
          | _ hpc' => simp [hpc] at hpc'
    rw [hsinks]
    by_cases hin : s ∈ σ._sinks ∨ σ.pc.joins = some s
    · exact Sink.flushed_of_forwarded (hcl.late c hpc hclear s hin)
    · rw [not_or] at hin
      exact hcl.released hrunning s hin.1 hin.2
  · have hrunning : σ.bgDeleted = false := by
      by_contra hdel
      have hdel := ho.registered.deleted (Bool.eq_true_of_not_eq_false hdel)
      simp [ho.worker.run_of_finished hdel] at hpc
    refine hcl.released hrunning s ?_ ?_
    · simp [sinks_of_exit h hpc]
    · simp [hpc, WorkerPc.joins]

/-- A test for the step to keep to what clearing relies on. -/
def clearsAlone (σ : State T R) : Action → Bool
  | .worker =>
      (match σ.pc, σ._sinks with
        | .clear _, s :: _ => decide ((σ.sinks s).temps = ∅)
        | _, _ => true) &&
      !(σ.pc.loop.isSome && decide (.work .clearSinks ∈ σ._bg.executed))
  | _ => true

theorem clearsLast_of_clearsAlone {σ : State T R} {a : Action} (h : clearsAlone σ a = true) :
    clearsLast σ a := by
  rintro rfl
  simp only [clearsAlone, Bool.and_eq_true, Bool.not_eq_true', Bool.and_eq_false_iff,
    decide_eq_false_iff_not] at h
  refine ⟨fun fatal s rest hpc hsinks => .inl ?_, fun i c hloop _ _ => ?_⟩
  · simpa [hpc, hsinks] using h.1
  · exact h.2.resolve_left (by simp [hloop])

/-- The clear waits for the sink, which has worked off its queue when the destructor's own
wait returns. -/
theorem clear_flushes_greeting : ∃ σ σ' : State Unit Unit, (σ.clients 0).pc = .waitClear ∧
    step σ (.client 0 0) = some σ' ∧ (σ'.sinks 0).forwarded = [greeting] ∧
      (σ'.sinks 0).logged = (σ'.sinks 0).forwarded := by
  have hrun : ((logWorker Unit Unit).runBy clearsAlone (init crew true) (deliverRun.take 23)).any
      (fun σ => (σ.clients 0).pc.waitsClear && (step σ (.client 0 0)).any fun σ' =>
        decide ((σ'.sinks 0).forwarded = [greeting])) = true := by
    decide +kernel
  have hstart : (logWorker Unit Unit).Start (init crew true) := ⟨crew, true, rfl⟩
  obtain ⟨σ, hσ, hp⟩ := System.exists_reachableBy hstart hrun
  simp only [Bool.and_eq_true] at hp
  obtain ⟨σ', hσ', hp'⟩ := (Option.any_eq_true _ _).mp hp.2
  have hpc := ClientPc.eq_waitClear hp.1
  exact ⟨σ, σ', hpc, hσ', of_decide_eq_true hp',
    (clear_flushes (hσ.mono fun _ _ => clearsLast_of_clearsAlone)).1 0 0 σ' hpc hσ' 0⟩

/-- The fatal message is accepted, and the worker clears, while the client that adds the
sink still holds it. -/
def heldPanicRun : List Action :=
  List.replicate 3 (.client 1 0) ++ List.replicate 2 .worker ++
    [.client 2 0, .client 2 0, .client 3 0] ++ List.replicate 4 (.fatal (.client 3)) ++
    List.replicate 9 .worker

/-- A client that is still returning from `addSink` holds the sink while the worker clears,
for the destructor or for a fatal message. The message forwarded before is then neither
logged when the destructor's wait returns, nor when the process ends. -/
theorem clear_leaves_message :
    (¬ ∀ σ : State Unit Unit, (logWorker Unit Unit).Reachable σ →
      ∀ c fresh σ', (σ.clients c).pc = .waitClear → step σ (.client c fresh) = some σ' →
        ∀ s, (σ'.sinks s).logged = (σ'.sinks s).forwarded) ∧
    ¬ ∀ σ : State Unit Unit, (logWorker Unit Unit).Reachable σ →
      ∀ msg, σ.pc = .exitWithDefaultSignalHandler msg →
        ∀ s, (σ.sinks s).logged = (σ.sinks s).forwarded := by
  refine ⟨fun h => ?_, fun h => ?_⟩
  · have hrun : ((logWorker Unit Unit).runBy (fun _ _ => true) (init crew true)
        (heldRun.take 15)).any (fun σ => (σ.clients 0).pc.waitsClear &&
          (step σ (.client 0 0)).any fun σ' => decide ((σ'.sinks 0).logged = []) &&
            decide ((σ'.sinks 0).forwarded = [greeting])) = true := by
      decide +kernel
    have hstart : (logWorker Unit Unit).Start (init crew true) := ⟨crew, true, rfl⟩
    obtain ⟨σ, hσ, hp⟩ := System.exists_reachableBy hstart hrun
    simp only [Bool.and_eq_true] at hp
    obtain ⟨σ', hσ', hp'⟩ := (Option.any_eq_true _ _).mp hp.2
    simp only [Bool.and_eq_true, decide_eq_true_eq] at hp'
    have := h σ hσ.reachable 0 0 σ' (ClientPc.eq_waitClear hp.1) hσ' 0
    simp [hp'.1, hp'.2] at this
  · have hrun : ((logWorker Unit Unit).runBy (fun _ _ => true) (init panicCrew true)
        heldPanicRun).any (fun σ =>
          decide (σ.pc = .exitWithDefaultSignalHandler lastWords) &&
          decide ((σ.sinks 0).logged = []) &&
          decide ((σ.sinks 0).forwarded = [greeting, lastWords.exitNotice])) = true := by
      decide +kernel
    have hstart : (logWorker Unit Unit).Start (init panicCrew true) := ⟨panicCrew, true, rfl⟩
    obtain ⟨σ, hσ, hp⟩ := System.exists_reachableBy hstart hrun
    simp only [Bool.and_eq_true, decide_eq_true_eq] at hp
    have := h σ hσ.reachable lastWords hp.1.1 0
    simp [hp.1.2, hp.2] at this

end G3log
