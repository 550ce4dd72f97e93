import G3log.Ownership

/-!
# The destructor of the worker

One client runs `~LogWorker`. Before it does, the queue of the worker is open, every
sink that a client has a handle to is registered, and no callback of the destructor is
in the queue; once it has returned, nothing is left of the worker.

## Main definitions

* `ClientPc.destructs` -- a client is inside `~LogWorker`.
* `Shutdown`, `shutdown` -- how far the destructor is, in every reachable state.
-/

namespace G3log
variable {T R : Type}

namespace ClientPc

/-- Inside `~LogWorker`. -/
def destructs : ClientPc T R → Bool
  | .sendClear | .waitClear | .resetBg | .joinBg | .destroySinks | .release _ .destructor
  | .join _ .destructor => true
  | _ => false

/-- Past the end of the worker's thread, inside `~LogWorker`. -/
def destroysSinks : ClientPc T R → Bool
  | .destroySinks | .release _ .destructor | .join _ .destructor => true
  | _ => false

/-- About to return from `addSink`. -/
def added : ClientPc T R → Option SinkId
  | .release s .addSink | .join s .addSink => some s
  | _ => none

end ClientPc

structure Shutdown (σ : State T R) : Prop where
  before : σ.destroying = false →
    σ.bgPtr = true ∧ σ.bgDeleted = false ∧ σ.destroyed = false ∧ .done ∉ σ._bg.sent ∧
      .work .clearSinks ∉ σ._bg.sent ∧ ∀ c, (σ.clients c).pc.destructs = false
  unique : ∀ c c', (σ.clients c).pc.destructs = true → (σ.clients c').pc.destructs = true → c' = c
  deleted : ∀ c, (σ.clients c).pc.destroysSinks = true → σ.bgDeleted = true
  returned : σ.destroyed = true →
    σ.bgDeleted = true ∧ σ._sinks = [] ∧ ∀ c, (σ.clients c).pc.destructs = false
  handle : ∀ s, (σ.sinks s).handle = true →
    .work (.addSink s) ∈ σ._bg.executed ∨ σ.destroying = true
  added : ∀ c s, (σ.clients c).pc.added = some s →
    .work (.addSink s) ∈ σ._bg.executed ∨ σ.destroying = true

namespace Shutdown
variable {σ σ' : State T R}

/-- A client moves on, outside of the destructor or within one of its stages. -/
theorem move (h : Shutdown σ) {c : ClientId} {k : Client T R} {sinks : SinkId → Sink T R}
    {futures : CallId → Future R} {bg : Active WorkerTask} {fatal : Thread → FatalPc}
    {ptr del : Bool} (hpc : (σ.clients c).pc.destructs = k.pc.destructs)
    (hptr : ptr = σ.bgPtr ∧ del = σ.bgDeleted ∨ (σ.clients c).pc.destructs = true ∧
      (σ.bgDeleted = true → del = true))
    (hsinks : k.pc.destroysSinks = true → del = true)
    (hbg : bg = σ._bg ∨ ∃ task, bg = σ._bg.send task ∧
      (σ.destroying = false → task ≠ .done ∧ task ≠ .work .clearSinks))
    (hhandle : ∀ s, (sinks s).handle = true → (σ.sinks s).handle = true ∨
      (σ.clients c).pc.added = some s)
    (hadded : ∀ s, k.pc.added = some s →
      .work (.addSink s) ∈ σ._bg.executed ∨ σ.destroying = true) :
    Shutdown { σ with
      clients := Function.update σ.clients c k
      sinks := sinks
      futures := futures
      fatal := fatal
      bgPtr := ptr
      bgDeleted := del
      _bg := bg } := by
  have hdes : ∀ c', (Function.update σ.clients c k c').pc.destructs =
      (σ.clients c').pc.destructs := by
    intro c'
    by_cases hc : c' = c
    · subst hc; simp [hpc]
    · simp [hc]
  have hexecuted : bg.executed = σ._bg.executed := by
    rcases hbg with rfl | ⟨task, rfl, -⟩ <;> rfl
  have hdel : σ.bgDeleted = true → del = true := by
    rcases hptr with ⟨-, rfl⟩ | ⟨-, hdel⟩
    · exact id
    · exact hdel
  refine ⟨fun hd => ?_, fun c₁ c₂ => ?_, fun c' => ?_, fun hr => ?_, fun s hs => ?_,
    fun c' s => ?_⟩
  · obtain ⟨hptr', hdel', hret, hdone, hclear, hall⟩ := h.before hd
    obtain ⟨rfl, rfl⟩ := hptr.resolve_right fun hc => by simp [hall c] at hc
    simp only [hdes]
    refine ⟨hptr', hdel', hret, ?_, ?_, hall⟩
    all_goals
      rcases hbg with rfl | ⟨task, rfl, htask⟩
      · assumption
      · simp [hdone, hclear, Ne.symm (htask hd).1, Ne.symm (htask hd).2]
  · simpa only [hdes] using h.unique c₁ c₂
  · by_cases hc : c' = c
    · subst hc; simpa using hsinks
    · exact fun hc' => hdel (h.deleted c' (by simpa [hc] using hc'))
  · obtain ⟨hdeleted, hnil, hall⟩ := h.returned hr
    simp only [hdes]
    exact ⟨hdel hdeleted, hnil, hall⟩
  · rw [hexecuted]
    rcases hhandle s hs with hs | hs
    · exact h.handle s hs
    · exact h.added c s hs
  · rw [hexecuted]
    by_cases hc : c' = c
    · subst hc; simpa using hadded s
    · simpa [hc] using h.added c' s

/-- Inside the destructor, the destructor has begun. -/
theorem destroying_of_destructs (h : Shutdown σ) {c : ClientId}
    (hc : (σ.clients c).pc.destructs = true) : σ.destroying = true := by
  by_contra hd
  simp [(h.before (Bool.eq_false_of_not_eq_true hd)).2.2.2.2.2 c] at hc

/-- A handle that is out was out before, or is handed out by the step. -/
theorem handle_release {s s' : SinkId} {role : Role} {sinks : SinkId → Sink T R}
    {k : Sink T R} {pc : ClientPc T R}
    (hpc : pc = .release s role ∨ pc = .join s role)
    (hs : (Function.update sinks s
      { k with handle := (sinks s).handle || decide (role = .addSink) } s').handle = true) :
    (sinks s').handle = true ∨ pc.added = some s' := by
  by_cases hss : s' = s
  · subst hss
    simp only [Function.update_self, Bool.or_eq_true, decide_eq_true_eq] at hs
    refine hs.imp_right fun hrole => ?_
    subst hrole
    rcases hpc with rfl | rfl <;> rfl
  · rw [Function.update_of_ne hss] at hs
    exact .inl hs

/-- The destructor begins. -/
theorem destroy (h : Shutdown σ) {c : ClientId} {rest : List (Op T R)}
    (hpc : (σ.clients c).pc = .idle) (hfirst : σ.destroying = false) :
    Shutdown { σ.setClient c { σ.clients c with program := rest, pc := .sendClear } with
      destroying := true
      g_logger_instance := false } := by
  obtain ⟨-, -, hret, -, -, hall⟩ := h.before hfirst
  have hne : ∀ c', (Function.update σ.clients c
      { σ.clients c with program := rest, pc := .sendClear } c').pc.destructs = true → c' = c := by
    intro c' hc'
    by_contra hcc
    simp [hcc, hall c'] at hc'
  refine ⟨nofun, fun c₁ c₂ h₁ h₂ => (hne c₂ h₂).trans (hne c₁ h₁).symm, fun c' hc' => ?_,
    fun hr => ?_, fun _ _ => .inr rfl, fun _ _ _ => .inr rfl⟩
  · by_cases hcc : c' = c
    · subst hcc; simp [ClientPc.destroysSinks] at hc'
    · exact h.deleted c' (by simpa [hcc] using hc')
  · simp [hret] at hr

/-- The vector shrinks, inside the destructor. -/
theorem tail (h : Shutdown σ) {c : ClientId} (hc : (σ.clients c).pc.destructs = true)
    (v : List SinkId) : Shutdown { σ with _sinks := v } :=
  ⟨h.before, h.unique, h.deleted, fun hr => by simp [(h.returned hr).2.2 c] at hc, h.handle,
    h.added⟩

/-- The destructor returns. -/
theorem destroyEnd (h : Shutdown σ) {c : ClientId} (hpc : (σ.clients c).pc = .destroySinks)
    (hsinks : σ._sinks = []) : Shutdown { σ.goto c .idle with destroyed := true } := by
  have hdes : (σ.clients c).pc.destructs = true := by rw [hpc]; rfl
  have hd := h.destroying_of_destructs hdes
  have hnone : ∀ c',
      (Function.update σ.clients c { σ.clients c with pc := .idle } c').pc.destructs = false := by
    intro c'
    by_cases hcc : c' = c
    · subst hcc; simp [ClientPc.destructs]
    · rw [Function.update_of_ne hcc]
      by_contra hc'
      exact hcc (h.unique c c' hdes (Bool.eq_true_of_not_eq_false hc'))
  have hdeleted := h.deleted c (by rw [hpc]; rfl)
  refine ⟨fun hn => by simp [hd] at hn, fun c₁ _ h₁ => ?_, fun _ _ => hdeleted,
    fun _ => ⟨hdeleted, hsinks, hnone⟩, h.handle, fun _ _ _ => .inr hd⟩
  simp [hnone c₁] at h₁

theorem clientStep (h : Shutdown σ) {c : ClientId} {fresh : SinkId}
    (hs : ClientStep c fresh σ σ') : Shutdown σ' := by
  cases hs with
  | make hpc hprogram hfresh =>
      refine h.move ?_ (.inl ⟨rfl, rfl⟩) ?_ (.inl rfl) (fun s hs => .inl ?_) ?_
      · simp [hpc, ClientPc.destructs]
      · simp [ClientPc.destroysSinks]
      · by_cases hsf : s = fresh
        · subst hsf; simp [Sink.make] at hs
        · simpa [hsf] using hs
      · simp [ClientPc.added]
  | sendSave hpc | sendAdd hpc =>
      refine h.move ?_ (.inl ⟨rfl, rfl⟩) ?_ (.inr ⟨_, rfl, fun _ => by simp⟩)
        (fun s hs => .inl hs) ?_
      · simp [hpc, ClientPc.destructs]
      · simp [ClientPc.destroysSinks]
      · simp [ClientPc.added]
  | @readNull s hpc hptr =>
      have hd : σ.destroying = true := by
        by_contra hd
        simp [(h.before (Bool.eq_false_of_not_eq_true hd)).1] at hptr
      refine h.move ?_ (.inl ⟨rfl, rfl⟩) ?_ (.inl rfl) (fun s hs => .inl hs) (fun _ _ => .inr hd)
      · simp [hpc, ClientPc.destructs]
      · simp [ClientPc.destroysSinks]
  | @waitAdd s hpc hready =>
      refine h.move ?_ (.inl ⟨rfl, rfl⟩) ?_ (.inl rfl) (fun s hs => .inl hs) (fun s' hs' => ?_)
      · simp [hpc, ClientPc.destructs]
      · simp [ClientPc.destroysSinks]
      · obtain rfl : s = s' := by simpa [ClientPc.added] using hs'
        refine hready.imp id fun hdel => ?_
        by_contra hd
        simp [(h.before (Bool.eq_false_of_not_eq_true hd)).2.1] at hdel
  | @lock s _ _ hpc | @async s _ _ hpc =>
      refine h.move ?_ (.inl ⟨rfl, rfl⟩) ?_ (.inl rfl) (fun s' hs' => .inl ?_) ?_
      · simp [hpc, ClientPc.destructs]
      · simp [ClientPc.destroysSinks]
      · by_cases hss : s' = s
        · subst hss; simpa [Sink.async] using hs'
        · simpa [hss] using hs'
      · simp [ClientPc.added]
  | @releaseShared s role hpc hstrong =>
      refine h.move ?_ (.inl ⟨rfl, rfl⟩) ?_ (.inl rfl) (fun s' hs' => ?_) ?_
      · cases role <;> simp [hpc, ClientPc.destructs]
      · exact fun hk => h.deleted c (by cases role <;> simp_all [ClientPc.destroysSinks])
      · change (((State.setSink s _ σ).afterRelease c s role).sinks s').handle = true at hs'
        rw [sinks_release] at hs'
        exact handle_release (.inl hpc) hs'
      · cases role <;> simp [ClientPc.added]
  | @releaseLast s role hpc hstrong =>
      refine h.move ?_ (.inl ⟨rfl, rfl⟩) ?_ (.inl rfl) (fun s' hs' => .inl ?_)
        fun s' hs' => h.added c s' ?_
      · cases role <;> simp [hpc, ClientPc.destructs]
      · exact fun hk => h.deleted c (by cases role <;> simp_all [ClientPc.destroysSinks])
      · by_cases hss : s' = s
        · subst hss; simpa [Sink.close] using hs'
        · simpa [hss] using hs'
      · cases role <;> simp_all [ClientPc.added]
  | @join s role hpc hfinished =>
      refine h.move ?_ (.inl ⟨rfl, rfl⟩) ?_ (.inl rfl) (fun s' hs' => ?_) ?_
      · cases role <;> simp [hpc, ClientPc.destructs]
      · exact fun hk => h.deleted c (by cases role <;> simp_all [ClientPc.destroysSinks])
      · change (((σ.destroySink s).afterRelease c s role).sinks s').handle = true at hs'
        rw [sinks_destroySink_release] at hs'
        exact handle_release (k := { σ.sinks s with _real_sink := none }) (.inr hpc) hs'
      · cases role <;> simp [ClientPc.added]
  | destroy hpc hprogram hfirst => exact h.destroy hpc hfirst
  | sendClear hpc =>
      have hd := h.destroying_of_destructs (c := c) (by rw [hpc]; rfl)
      refine h.move ?_ (.inl ⟨rfl, rfl⟩) ?_ (.inr ⟨_, rfl, fun hn => by simp [hd] at hn⟩)
        (fun s hs => .inl hs) ?_
      · simp [hpc, ClientPc.destructs]
      · simp [ClientPc.destroysSinks]
      · simp [ClientPc.added]
  | resetBg hpc =>
      have hdes : (σ.clients c).pc.destructs = true := by rw [hpc]; rfl
      have hd := h.destroying_of_destructs hdes
      refine h.move ?_ (.inr ⟨hdes, id⟩) ?_ (.inr ⟨_, rfl, fun hn => by simp [hd] at hn⟩)
        (fun s hs => .inl hs) ?_
      · simp [hpc, ClientPc.destructs]
      · simp [ClientPc.destroysSinks]
      · simp [ClientPc.added]
  | joinBg hpc hfinished =>
      have hdes : (σ.clients c).pc.destructs = true := by rw [hpc]; rfl
      refine h.move ?_ (.inr ⟨hdes, fun _ => rfl⟩) (fun _ => rfl) (.inl rfl)
        (fun s hs => .inl hs) ?_
      · simp [hpc, ClientPc.destructs]
      · simp [ClientPc.added]
  | destroyShared hpc hsinks hstrong => exact h.tail (c := c) (by rw [hpc]; rfl) _
  | @destroyLast s rest hpc hsinks hstrong =>
      refine (h.tail (c := c) (by rw [hpc]; rfl) rest).move ?_ (.inl ⟨rfl, rfl⟩) ?_ (.inl rfl)
        (fun s' hs' => .inl ?_) ?_
      · simp [hpc, ClientPc.destructs]
      · exact fun _ => h.deleted c (by rw [hpc]; rfl)
      · by_cases hss : s' = s
        · subst hss; simpa [Sink.close] using hs'
        · simpa [hss] using hs'
      · simp [ClientPc.added]
  | destroyEnd hpc hsinks => exact h.destroyEnd hpc hsinks
  | _ hpc =>
      refine h.move ?_ (.inl ⟨rfl, rfl⟩) ?_ (.inl rfl) (fun s hs => .inl hs) ?_
      · simp [hpc, ClientPc.destructs]
      · simp [hpc, ClientPc.destroysSinks]
      · simp [hpc, ClientPc.added]

/-- The worker's thread goes on, and is not through. -/
theorem proceed (h : Shutdown σ) {bg : Active WorkerTask} {v : List SinkId} {pc : WorkerPc}
    {sinks : SinkId → Sink T R} {futures : CallId → Future R} {active exited : Bool}
    (hdel : σ.bgDeleted = false) (hsent : bg.sent = σ._bg.sent)
    (hexecuted : σ._bg.executed ⊆ bg.executed)
    (hhandle : ∀ s, (sinks s).handle = (σ.sinks s).handle) :
    Shutdown { σ with
      _bg := bg
      _sinks := v
      pc := pc
      sinks := sinks
      futures := futures
      g_logger_instance := active
      exited := exited } where
  before := by
    dsimp only
    rw [hsent]
    exact h.before
  unique := h.unique
  deleted := h.deleted
  returned := fun hr => by simp [(h.returned hr).1] at hdel
  handle := fun s hs => (h.handle s (by rwa [← hhandle])).imp_left fun hm => hexecuted hm
  added := fun c s hs => (h.added c s hs).imp_left fun hm => hexecuted hm

theorem workerStep (h : Shutdown σ) (ho : Owned σ) (hs : WorkerStep σ σ') : Shutdown σ' := by
  have hdel : σ.bgDeleted = false := by
    by_contra hdel
    have := ho.registered.deleted (Bool.eq_true_of_not_eq_false hdel)
    simp [hs.not_finished ho.worker] at this
  cases hs with
  | exit hpc hexit =>
      refine h.proceed hdel (Active.sent_exit hexit) ?_ fun _ => rfl
      obtain ⟨-, -, -, rfl⟩ := Active.exit_eq_some hexit
      exact fun _ hm => hm
  | pop hpc hpop hfunc =>
      refine h.proceed hdel (Active.sent_pop hpop) ?_ fun _ => rfl
      obtain ⟨c, rest, -, -, -, rfl⟩ := Active.pop_eq_some hpop
      exact fun _ hm => hm
  | bgSaveEnd | addSink | clearEnd | done =>
      exact h.proceed hdel σ._bg.sent_ret (List.subset_append_left _ _) fun _ => rfl
  | @bgSave _ _ s | @bgFatal _ _ s | @clearLast _ s | @join s =>
      refine h.proceed hdel rfl (fun _ hm => hm) fun s' => ?_
      by_cases hss : s' = s
      · subst hss; simp [State.destroySink, Sink.send, Sink.close]
      · simp [State.destroySink, hss]
  | _ => exact h.proceed hdel rfl (fun _ hm => hm) fun _ => rfl

theorem sinkStep (h : Shutdown σ) {s : SinkId} (hs : SinkStep s σ σ') : Shutdown σ' := by
  cases hs with
  | turn hcreated hturn | value hcreated hturn =>
      refine ⟨h.before, h.unique, h.deleted, h.returned, fun s' hs' => h.handle s' ?_, h.added⟩
      by_cases hss : s' = s
      · subst hss
        simpa [(Sink.turn_frame hturn).2.2.1] using hs'
      · simpa [hss] using hs'

theorem overlay (h : Shutdown σ) (hs : Overlay σ σ') : Shutdown σ' := by
  cases hs with
  | keep fatal firstExit exited =>
      exact ⟨h.before, h.unique, h.deleted, h.returned, h.handle, h.added⟩
  | send fatal msg =>
      refine ⟨fun hd => ?_, h.unique, h.deleted, h.returned, h.handle, h.added⟩
      obtain ⟨hptr, hdel, hret, hdone, hclear, hall⟩ := h.before hd
      exact ⟨hptr, hdel, hret, by simp [hdone], by simp [hclear], hall⟩

theorem step (h : Shutdown σ) (ho : Owned σ) {a : Action} (hs : Step σ a σ') : Shutdown σ' := by
  rcases hs.data with ⟨c, fresh, hs⟩ | hs | ⟨s, hs⟩ | hs
  · exact h.clientStep hs
  · exact h.workerStep ho hs
  · exact h.sinkStep hs
  · exact h.overlay hs

theorem init (programs : ClientId → List (Op T R)) (active : Bool) :
    Shutdown (G3log.init programs active) := by
  refine ⟨fun _ => ⟨rfl, rfl, rfl, ?_, ?_, fun _ => rfl⟩, ?_, ?_, nofun, nofun, nofun⟩
  · simp [G3log.init]
  · simp [G3log.init]
  · simp [G3log.init, ClientPc.destructs]
  · simp [G3log.init, ClientPc.destroysSinks]

end Shutdown

theorem shutdown {Ok : State T R → Action → Prop} {σ : State T R}
    (h : (logWorker T R).ReachableBy Ok σ) : Shutdown σ := by
  refine h.invariant ?_ fun σ a σ' hr _ hσ hs => hσ.step (owned hr) (step_cases hs).2
  rintro _ ⟨programs, active, rfl⟩
  exact Shutdown.init programs active

end G3log
