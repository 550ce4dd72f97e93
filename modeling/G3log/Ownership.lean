import G3log.Steps

/-!
# Who holds a sink

A sink is held by the vector of the worker and by the clients inside `addSink` or
`SinkHandle::call`. Nobody else can send to it: once the last reference is gone the
callback of `~Active` is the last one in its queue, and whoever dropped that reference
waits until the sink's thread has emptied the queue.

## Main definitions

* `Held` -- the clients that hold a reference are those whose place in the program says so.
* `Registered` -- each sink's add task is sent once, by the client that waits for it.
* `SinkLife` -- the life of each sink, by its references.
* `Owned`, `owned` -- all of it, in every reachable state.
-/

namespace G3log
variable {T R : Type}

namespace ClientPc

/-- The sink a client holds a `shared_ptr` to. -/
def holds : ClientPc T R → Option SinkId
  | .addSink s | .sendAdd s | .waitAdd s | .async s _ _ | .release s _ => some s
  | _ => none

/-- The sink a client is adding, until `addSink` returns. -/
def adds : ClientPc T R → Option SinkId
  | .addSink s | .sendAdd s | .waitAdd s | .release s .addSink | .join s .addSink => some s
  | _ => none

/-- The sink a client is adding, up to its add task. -/
def willAdd : ClientPc T R → Option SinkId
  | .addSink s | .sendAdd s => some s
  | _ => none

/-- The sink whose thread a client waits for in `~Sink`. -/
def joins : ClientPc T R → Option SinkId
  | .join s _ => some s
  | _ => none

theorem adds_of_willAdd {pc : ClientPc T R} {s : SinkId} (h : pc.willAdd = some s) :
    pc.adds = some s := by
  cases pc <;> simp_all [willAdd, adds]

end ClientPc

/-- The sink whose thread the worker waits for in `~Sink`. -/
def WorkerPc.joins : WorkerPc → Option SinkId
  | .join s _ => some s
  | _ => none

/-! ## Temporary references -/

/-- The references of clients, and what `addSink` knows about the sink it makes. -/
structure Held (sinks : SinkId → Sink T R) (clients : ClientId → Client T R) : Prop where
  temps_iff : ∀ c s, c ∈ (sinks s).temps ↔ (clients c).pc.holds = some s
  unmade : ∀ s, (sinks s).created = false → sinks s = .unmade
  adder : ∀ c s, (clients c).pc.adds = some s →
    (sinks s).created = true ∧ (sinks s).handle = false ∧
      ∀ c', (clients c').pc.adds = some s → c' = c
  holder : ∀ c s, (clients c).pc.holds = some s →
    (clients c).pc.adds = some s ∨ (sinks s).handle = true

namespace Held
variable {sinks : SinkId → Sink T R} {clients : ClientId → Client T R}

theorem created (h : Held sinks clients) {c : ClientId} {s : SinkId}
    (hc : (clients c).pc.holds = some s) : (sinks s).created = true := by
  by_contra hcreated
  have hmem := (h.temps_iff c s).mpr hc
  rw [h.unmade s (Bool.eq_false_of_not_eq_true hcreated)] at hmem
  simp [Sink.unmade] at hmem

theorem created_of_handle (h : Held sinks clients) {s : SinkId}
    (hs : (sinks s).handle = true) : (sinks s).created = true := by
  by_contra hcreated
  rw [h.unmade s (Bool.eq_false_of_not_eq_true hcreated)] at hs
  simp [Sink.unmade] at hs

/-- A client that keeps hold of what it holds. -/
theorem move (h : Held sinks clients) {c : ClientId} {k : Client T R}
    (hholds : k.pc.holds = (clients c).pc.holds) (hadds : k.pc.adds = (clients c).pc.adds) :
    Held sinks (Function.update clients c k) := by
  have hholds' : ∀ c', (Function.update clients c k c').pc.holds = (clients c').pc.holds := by
    intro c'
    by_cases hc : c' = c
    · subst hc; simpa using hholds
    · simp [hc]
  have hadds' : ∀ c', (Function.update clients c k c').pc.adds = (clients c').pc.adds := by
    intro c'
    by_cases hc : c' = c
    · subst hc; simpa using hadds
    · simp [hc]
  refine ⟨fun c' s => ?_, h.unmade, fun c' s => ?_, fun c' s => ?_⟩
  · rw [hholds']
    exact h.temps_iff c' s
  · simp only [hadds']
    exact h.adder c' s
  · rw [hholds', hadds']
    exact h.holder c' s

/-- A sink that keeps its references. -/
theorem sink (h : Held sinks clients) {s : SinkId} {k : Sink T R}
    (hcreated : k.created = true) (htemps : k.temps = (sinks s).temps)
    (hhandle : k.handle = (sinks s).handle) : Held (Function.update sinks s k) clients := by
  have htemps' : ∀ s', (Function.update sinks s k s').temps = (sinks s').temps := by
    intro s'
    by_cases hs : s' = s
    · subst hs; simpa using htemps
    · simp [hs]
  have hhandle' : ∀ s', (Function.update sinks s k s').handle = (sinks s').handle := by
    intro s'
    by_cases hs : s' = s
    · subst hs; simpa using hhandle
    · simp [hs]
  refine ⟨fun c s' => ?_, fun s' hs' => ?_, fun c s' hc => ?_, fun c s' => ?_⟩
  · rw [htemps']
    exact h.temps_iff c s'
  · by_cases hs : s' = s
    · subst hs
      simp [hcreated] at hs'
    · rw [Function.update_of_ne hs] at hs' ⊢
      exact h.unmade s' hs'
  · rw [hhandle']
    refine ⟨?_, (h.adder c s' hc).2⟩
    by_cases hs : s' = s
    · subst hs; simpa using hcreated
    · rw [Function.update_of_ne hs]
      exact (h.adder c s' hc).1
  · rw [hhandle']
    exact h.holder c s'

/-- A client that held nothing takes a reference, to a new sink or through a handle. -/
theorem take (h : Held sinks clients) {c : ClientId} {s : SinkId} {k : Sink T R} {k' : Client T R}
    (hnone : (clients c).pc.holds = none) (hholds : k'.pc.holds = some s)
    (hcreated : k.created = true) (htemps : k.temps = insert c (sinks s).temps)
    (hnot : ∀ c', (clients c').pc.adds ≠ some s)
    (hadds : k'.pc.adds = some s ∧ k.handle = false ∧ (∀ c', (clients c').pc.holds ≠ some s) ∨
      k'.pc.adds = none ∧ k.handle = true) :
    Held (Function.update sinks s k) (Function.update clients c k') where
  temps_iff := by
    intro c' s'
    by_cases hs : s' = s <;> by_cases hc : c' = c
    · subst hs hc
      simp [htemps, hholds]
    · subst hs
      simp [htemps, hc, h.temps_iff c' s']
    · subst hc
      have hnot : c' ∉ (sinks s').temps := by simp [h.temps_iff c' s', hnone]
      simp [hs, hholds, hnot, Ne.symm hs]
    · simp [hs, hc, h.temps_iff c' s']
  unmade := by
    intro s' hs'
    by_cases hs : s' = s
    · subst hs
      simp [hcreated] at hs'
    · rw [Function.update_of_ne hs] at hs' ⊢
      exact h.unmade s' hs'
  adder := by
    intro c' s' hc'
    by_cases hc : c' = c
    · subst hc
      rw [Function.update_self] at hc'
      rcases hadds with ⟨hk, hhandle, -⟩ | ⟨hk, -⟩
      · obtain rfl : s = s' := Option.some.inj (hk.symm.trans hc')
        refine ⟨by simpa using hcreated, by simpa using hhandle, fun c'' hc'' => ?_⟩
        by_contra hne
        rw [Function.update_of_ne hne] at hc''
        exact hnot c'' hc''
      · simp [hk] at hc'
    · rw [Function.update_of_ne hc] at hc'
      have hs : s' ≠ s := fun hs => hnot c' (hs ▸ hc')
      rw [Function.update_of_ne hs]
      obtain ⟨hcr, hh, hunique⟩ := h.adder c' s' hc'
      refine ⟨hcr, hh, fun c'' hc'' => ?_⟩
      by_cases hcc : c'' = c
      · subst hcc
        rw [Function.update_self] at hc''
        rcases hadds with ⟨hk, -⟩ | ⟨hk, -⟩
        · exact absurd (Option.some.inj (hc''.symm.trans hk)) hs
        · simp [hk] at hc''
      · rw [Function.update_of_ne hcc] at hc''
        exact hunique c'' hc''
  holder := by
    intro c' s' hc'
    by_cases hc : c' = c
    · subst hc
      rw [Function.update_self] at hc' ⊢
      obtain rfl : s = s' := Option.some.inj (hholds.symm.trans hc')
      rw [Function.update_self]
      exact hadds.imp (·.1) (·.2)
    · rw [Function.update_of_ne hc] at hc' ⊢
      by_cases hs : s' = s
      · subst hs
        rw [Function.update_self]
        rcases hadds with ⟨-, -, hnone⟩ | ⟨-, hhandle⟩
        · exact absurd hc' (hnone c')
        · exact .inr hhandle
      · rw [Function.update_of_ne hs]
        exact h.holder c' s' hc'

/-- A client is done with a sink. If it was adding it, the handle may go out. -/
theorem leave (h : Held sinks clients) {c : ClientId} {s : SinkId} {k : Sink T R}
    {k' : Client T R} (hholds : (clients c).pc.holds = some s ∨ (clients c).pc.holds = none)
    (hnone : k'.pc.holds = none) (hcreated : k.created = true)
    (htemps : k.temps = (sinks s).temps.erase c)
    (hadds : k'.pc.adds = none ∧
        (k.handle = (sinks s).handle ∨ (clients c).pc.adds = some s) ∧
          ((sinks s).handle = true → k.handle = true) ∨
      k'.pc.adds = (clients c).pc.adds ∧ k.handle = (sinks s).handle) :
    Held (Function.update sinks s k) (Function.update clients c k') where
  temps_iff := by
    intro c' s'
    by_cases hs : s' = s <;> by_cases hc : c' = c
    · subst hs hc
      simp [htemps, hnone]
    · subst hs
      simp [htemps, hc, h.temps_iff c' s']
    · subst hc
      have hnot : c' ∉ (sinks s').temps := by
        rw [h.temps_iff c' s']
        rcases hholds with hholds | hholds <;> simp [hholds, Ne.symm hs]
      simp [hs, hnone, hnot]
    · simp [hs, hc, h.temps_iff c' s']
  unmade := by
    intro s' hs'
    by_cases hs : s' = s
    · subst hs
      simp [hcreated] at hs'
    · rw [Function.update_of_ne hs] at hs' ⊢
      exact h.unmade s' hs'
  adder := by
    intro c' s' hc'
    have hold : (clients c').pc.adds = some s' := by
      by_cases hc : c' = c
      · subst hc
        rw [Function.update_self] at hc'
        rcases hadds with ⟨hk, -⟩ | ⟨hk, -⟩
        · simp [hk] at hc'
        · rwa [← hk]
      · rwa [Function.update_of_ne hc] at hc'
    obtain ⟨hcr, hh, hunique⟩ := h.adder c' s' hold
    refine ⟨?_, ?_, fun c'' hc'' => ?_⟩
    · by_cases hs : s' = s
      · subst hs; simpa using hcreated
      · rwa [Function.update_of_ne hs]
    · by_cases hs : s' = s
      · subst hs
        rw [Function.update_self]
        rcases hadds with ⟨hk, hhandle | hadder, -⟩ | ⟨-, hhandle⟩
        · rw [hhandle, hh]
        · -- The client that is done with the sink was the one adding it.
          obtain rfl := hunique c hadder
          rw [Function.update_self, hk] at hc'
          simp at hc'
        · rw [hhandle, hh]
      · rwa [Function.update_of_ne hs]
    · refine hunique c'' ?_
      by_cases hcc : c'' = c
      · subst hcc
        rw [Function.update_self] at hc''
        rcases hadds with ⟨hk, -⟩ | ⟨hk, -⟩
        · simp [hk] at hc''
        · rwa [← hk]
      · rwa [Function.update_of_ne hcc] at hc''
  holder := by
    intro c' s' hc'
    by_cases hc : c' = c
    · subst hc
      simp [hnone] at hc'
    · rw [Function.update_of_ne hc] at hc' ⊢
      refine (h.holder c' s' hc').imp id fun hh => ?_
      by_cases hs : s' = s
      · subst hs
        rw [Function.update_self]
        rcases hadds with ⟨-, -, hk⟩ | ⟨-, hk⟩
        · exact hk hh
        · rwa [hk]
      · rwa [Function.update_of_ne hs]

end Held

/-- The last step with a reference, for each role. -/
theorem Held.finish {c : ClientId} {s : SinkId} {role : Role} {σ : State T R} {k : Sink T R}
    (h : Held σ.sinks σ.clients)
    (hpc : (σ.clients c).pc = .release s role ∨ (σ.clients c).pc = .join s role)
    (hk : k.created = true)
    (htemps : k.temps = (σ.sinks s).temps.erase c)
    (hhandle : k.handle = ((σ.sinks s).handle || decide (role = .addSink))) :
    Held (Function.update σ.sinks s k) (Function.update σ.clients c { σ.clients c with
      pc := if role = .destructor then .destroySinks else .idle }) := by
  refine h.leave ?_ ?_ hk htemps (.inl ⟨?_, ?_, fun hs => by simp [hhandle, hs]⟩)
  · rcases hpc with hpc | hpc <;> simp [hpc, ClientPc.holds]
  · cases role <;> simp [ClientPc.holds]
  · cases role <;> simp [ClientPc.adds]
  · cases role with
    | addSink => exact .inr (by rcases hpc with hpc | hpc <;> simp [hpc, ClientPc.adds])
    | call | destructor => exact .inl (by simpa using hhandle)

theorem Held.clientStep {c : ClientId} {fresh : SinkId} {σ σ' : State T R}
    (h : Held σ.sinks σ.clients)
    (hjoins : ∀ s, (σ.clients c).pc.joins = some s →
      (σ.sinks s).created = true ∧ (σ.sinks s).temps = ∅)
    (hvector : ∀ s ∈ σ._sinks, (σ.sinks s).created = true)
    (hs : ClientStep c fresh σ σ') : Held σ'.sinks σ'.clients := by
  cases hs with
  | make hpc hprogram hfresh =>
      have hun := h.unmade fresh hfresh
      have hnot : ∀ c', (σ.clients c').pc.holds ≠ some fresh := fun c' hc' => by
        simp [h.created hc'] at hfresh
      refine h.take (by simp [hpc, ClientPc.holds]) rfl rfl ?_ (fun c' hc' => ?_)
        (.inl ⟨rfl, rfl, hnot⟩)
      · simp [Sink.make, hun, Sink.unmade]
      · simp [(h.adder c' fresh hc').1] at hfresh
  | lock hpc hprogram hhandle hstrong =>
      refine h.take (by simp [hpc, ClientPc.holds]) rfl (h.created_of_handle hhandle) rfl
        (fun c' hc' => ?_) (.inr ⟨rfl, hhandle⟩)
      simp [(h.adder c' _ hc').2.1] at hhandle
  | async hpc =>
      have hcreated := h.created (c := c) (by rw [hpc]; rfl)
      refine (h.sink ?_ ?_ ?_).move ?_ ?_
      all_goals simp [hpc, hcreated, ClientPc.holds, ClientPc.adds, Sink.async]
  | @releaseShared s role hpc hstrong =>
      have hcreated := h.created (c := c) (by rw [hpc]; rfl)
      rw [sinks_release]
      exact h.finish (.inl hpc) hcreated rfl rfl
  | @releaseLast s role hpc hstrong =>
      have hcreated := h.created (c := c) (by rw [hpc]; rfl)
      refine h.leave (.inl (by simp [hpc, ClientPc.holds])) rfl hcreated rfl (.inr ⟨?_, rfl⟩)
      cases role <;> simp [hpc, ClientPc.adds]
  | @join s role hpc hfinished =>
      obtain ⟨hcreated, htemps⟩ := hjoins s (by simp [hpc, ClientPc.joins])
      rw [sinks_destroySink_release]
      exact h.finish (.inr hpc) hcreated (by simp [htemps]) rfl
  | destroyLast hpc hsinks hstrong =>
      have hcreated := hvector _ (by rw [hsinks]; exact List.mem_cons_self)
      refine (h.sink ?_ ?_ ?_).move ?_ ?_
      all_goals simp [hpc, hcreated, ClientPc.holds, ClientPc.adds, Sink.close]
  | destroyShared => exact h
  | _ hpc =>
      refine h.move ?_ ?_
      all_goals simp [hpc, ClientPc.holds, ClientPc.adds]

theorem Held.workerStep {σ σ' : State T R} (h : Held σ.sinks σ.clients)
    (hvector : ∀ s ∈ σ._sinks, (σ.sinks s).created = true)
    (hjoins : ∀ s, σ.pc.joins = some s → (σ.sinks s).created = true)
    (hs : WorkerStep σ σ') : Held σ'.sinks σ'.clients := by
  cases hs with
  | bgSave hpc hs => exact h.sink (hvector _ (List.mem_of_getElem? hs)) rfl rfl
  | bgFatal hpc hs => exact h.sink (hvector _ (List.mem_of_getElem? hs)) rfl rfl
  | clearLast hpc hsinks hstrong =>
      exact h.sink (hvector _ (by rw [hsinks]; exact List.mem_cons_self)) rfl rfl
  | join hpc hfinished => exact h.sink (hjoins _ (by simp [hpc, WorkerPc.joins])) rfl rfl
  | _ => exact h

theorem Held.sinkStep {s : SinkId} {σ σ' : State T R} (h : Held σ.sinks σ.clients)
    (hs : SinkStep s σ σ') : Held σ'.sinks σ'.clients := by
  cases hs with
  | turn hcreated hturn | value hcreated hturn =>
      obtain ⟨hc, ht, hh, -⟩ := Sink.turn_frame hturn
      exact h.sink (hc.trans hcreated) ht hh

/-! ## The worker's queue -/

/-- The callback that the place of the worker's thread belongs to. -/
def WorkerPc.func : WorkerPc → Option (Callback WorkerTask)
  | .run => none
  | .bgSave msg _ => some (.work (.bgSave msg))
  | .addSink s => some (.work (.addSink s))
  | .shutDownLogging msg | .bgFatal msg _ | .clear (some msg) | .join _ (some msg)
  | .exitWithDefaultSignalHandler msg => some (.work (.bgFatal msg))
  | .clear none | .join _ none => some (.work .clearSinks)
  | .done => some .done

/-- The worker's thread runs the callback it has taken, and never gets through with a
fatal one. -/
structure WorkerOk (bg : Active WorkerTask) (pc : WorkerPc) : Prop where
  sound : bg.Sound
  func : bg.func = pc.func
  noFatal : ∀ msg, .work (.bgFatal msg) ∉ bg.executed

theorem WorkerOk.ret {bg : Active WorkerTask} {pc : WorkerPc} (h : WorkerOk bg pc)
    {c : Callback WorkerTask} (hc : pc.func = some c) (hfatal : ∀ msg, c ≠ .work (.bgFatal msg)) :
    WorkerOk bg.ret .run where
  sound := h.sound.ret (h.func.trans hc)
  func := rfl
  noFatal := by
    intro msg hmem
    have hexecuted : bg.ret.executed = bg.executed ++ [c] := by
      simp [Active.ret, h.func.trans hc]
    rw [hexecuted] at hmem
    rcases List.mem_append.mp hmem with hmem | hmem
    · exact h.noFatal msg hmem
    · exact hfatal msg (List.mem_singleton.mp hmem).symm

theorem WorkerOk.workerStep {σ σ' : State T R} (h : WorkerOk σ._bg σ.pc) (hs : WorkerStep σ σ') :
    WorkerOk σ'._bg σ'.pc := by
  have goto {pc : WorkerPc} (hpc : σ.pc.func = pc.func) : WorkerOk σ._bg pc :=
    ⟨h.sound, h.func.trans hpc, h.noFatal⟩
  cases hs with
  | exit hpc hexit =>
      refine ⟨h.sound.exit hexit, ?_, ?_⟩
      all_goals obtain ⟨-, -, -, rfl⟩ := Active.exit_eq_some hexit
      · exact h.func
      · exact h.noFatal
  | pop hpc hpop hfunc =>
      refine ⟨h.sound.pop hpop, ?_, ?_⟩
      · rw [hfunc]
        dsimp only
        unfold State.enter
        split <;> rfl
      · obtain ⟨c, rest, -, -, -, rfl⟩ := Active.pop_eq_some hpop
        exact h.noFatal
  | bgSaveEnd hpc => exact h.ret (by rw [hpc]; rfl) (by simp)
  | addSink hpc => exact h.ret (by rw [hpc]; rfl) (by simp)
  | clearEnd hpc => exact h.ret (by rw [hpc]; rfl) (by simp)
  | done hpc => exact h.ret (by rw [hpc]; rfl) (by simp)
  | clearShared hpc => exact h
  | exitWithDefaultSignalHandler hpc => exact h
  | @clearLast fatal _ _ hpc => exact goto (by rw [hpc]; cases fatal <;> rfl)
  | @join _ fatal hpc => exact goto (by rw [hpc]; cases fatal <;> rfl)
  | _ hpc => exact goto (by rw [hpc]; rfl)

theorem WorkerOk.sendBg {bg : Active WorkerTask} {pc : WorkerPc} (h : WorkerOk bg pc)
    (c : Callback WorkerTask) : WorkerOk (bg.send c) pc :=
  ⟨h.sound.send c, h.func, h.noFatal⟩

theorem WorkerOk.clientStep {c : ClientId} {fresh : SinkId} {σ σ' : State T R}
    (h : WorkerOk σ._bg σ.pc) (hs : ClientStep c fresh σ σ') : WorkerOk σ'._bg σ'.pc := by
  cases hs with
  | sendSave | sendAdd | sendClear | resetBg => exact h.sendBg _
  | _ => exact h

/-- Once the worker's thread has returned from `run`, it is in no callback. -/
theorem WorkerOk.run_of_finished {bg : Active WorkerTask} {pc : WorkerPc} (h : WorkerOk bg pc)
    (hfinished : bg.finished = true) : pc = .run := by
  have hfunc := h.func ▸ h.sound.func_of_done (h.sound.done_of_finished hfinished)
  cases pc with
  | run => rfl
  | clear fatal | join s fatal => cases fatal <;> simp [WorkerPc.func] at hfunc
  | _ => simp [WorkerPc.func] at hfunc

/-- The worker's thread only moves while it has not returned from `run`. -/
theorem WorkerStep.not_finished {σ σ' : State T R} (hs : WorkerStep σ σ')
    (h : WorkerOk σ._bg σ.pc) : σ._bg.finished = false := by
  by_contra hfinished
  have hfinished := Bool.eq_true_of_not_eq_false hfinished
  have hrun := h.run_of_finished hfinished
  cases hs with
  | exit hpc hexit => simp [(Active.exit_eq_some hexit).2.2.1] at hfinished
  | pop hpc hpop hfunc =>
      obtain ⟨-, -, -, hdone, -⟩ := Active.pop_eq_some hpop
      simp [h.sound.done_of_finished hfinished] at hdone
  | _ hpc => simp [hpc] at hrun

/-- Each sink's add task is sent once, and waited for. -/
structure Registered (bg : Active WorkerTask) (_sinks : List SinkId) (bgDeleted : Bool)
    (sinks : SinkId → Sink T R) (clients : ClientId → Client T R) : Prop where
  once : ∀ s, bg.sent.count (.work (.addSink s)) ≤ 1
  willAdd : ∀ c s, (clients c).pc.willAdd = some s → .work (.addSink s) ∉ bg.sent
  created : ∀ s, .work (.addSink s) ∈ bg.sent → (sinks s).created = true
  vector : ∀ s ∈ _sinks, .work (.addSink s) ∈ bg.executed
  nodup : _sinks.Nodup
  waits : ∀ s, .work (.addSink s) ∈ bg.sent →
    .work (.addSink s) ∈ bg.executed ∨ bgDeleted = true ∨ ∃ c, (clients c).pc = .waitAdd s
  deleted : bgDeleted = true → bg.finished = true

namespace Registered
variable {bg : Active WorkerTask} {v : List SinkId} {del : Bool} {sinks : SinkId → Sink T R}
  {clients : ClientId → Client T R}

theorem vector_created (h : Registered bg v del sinks clients) {s : SinkId} (hs : s ∈ v) :
    (sinks s).created = true :=
  h.created s (bg.executed_isPrefix.subset (h.vector s hs))

/-- Sinks do not become unmade. -/
theorem setSink (h : Registered bg v del sinks clients) {s : SinkId} {k : Sink T R}
    (hk : k.created = true) : Registered bg v del (Function.update sinks s k) clients :=
  { h with
    created := by
      intro s' hs'
      by_cases hs : s' = s
      · subst hs; simpa using hk
      · rw [Function.update_of_ne hs]
        exact h.created s' hs' }

/-- Another callback than an add task is sent. -/
theorem send (h : Registered bg v del sinks clients) {c : Callback WorkerTask}
    (hc : ∀ s, c ≠ .work (.addSink s)) : Registered (bg.send c) v del sinks clients := by
  have hmem : ∀ s, .work (.addSink s) ∈ (bg.send c).sent → .work (.addSink s) ∈ bg.sent := by
    intro s hs
    rw [Active.sent_send, List.mem_append, List.mem_singleton] at hs
    exact hs.resolve_right fun heq => hc s heq.symm
  refine ⟨fun s => ?_, fun c' s hs hsent => h.willAdd c' s hs (hmem s hsent),
    fun s hs => h.created s (hmem s hs), h.vector, h.nodup, fun s hs => h.waits s (hmem s hs),
    h.deleted⟩
  rw [Active.sent_send, List.count_append, List.count_singleton]
  simpa [hc s] using h.once s

/-- The worker's thread goes on. -/
theorem proceed (h : Registered bg v del sinks clients) {bg' : Active WorkerTask}
    (hsent : bg'.sent = bg.sent) (hexecuted : bg.executed ⊆ bg'.executed)
    (hfinished : bg.finished = true → bg'.finished = true) :
    Registered bg' v del sinks clients where
  once := by rw [hsent]; exact h.once
  willAdd := by rw [hsent]; exact h.willAdd
  created := by rw [hsent]; exact h.created
  vector := fun s hs => hexecuted (h.vector s hs)
  nodup := h.nodup
  waits := by
    intro s hs
    rw [hsent] at hs
    exact (h.waits s hs).imp_left fun hmem => hexecuted hmem
  deleted := fun hd => hfinished (h.deleted hd)

theorem ret (h : Registered bg v del sinks clients) : Registered bg.ret v del sinks clients :=
  h.proceed bg.sent_ret (List.subset_append_left _ _) id

theorem tail (h : Registered bg v del sinks clients) {s : SinkId} {rest : List SinkId}
    (hv : v = s :: rest) : Registered bg rest del sinks clients :=
  { h with
    vector := fun s' hs' => h.vector s' (by simp [hv, hs'])
    nodup := by
      have := h.nodup
      rw [hv] at this
      exact this.of_cons }

/-- A client moves on, but not past its add task. -/
theorem move (h : Registered bg v del sinks clients) {c : ClientId} {k : Client T R}
    (hwill : ∀ s, k.pc.willAdd = some s → .work (.addSink s) ∉ bg.sent)
    (hwait : ∀ s, (clients c).pc = .waitAdd s →
      .work (.addSink s) ∈ bg.executed ∨ del = true) :
    Registered bg v del sinks (Function.update clients c k) :=
  { h with
    willAdd := by
      intro c' s hs
      by_cases hc : c' = c
      · subst hc
        rw [Function.update_self] at hs
        exact hwill s hs
      · rw [Function.update_of_ne hc] at hs
        exact h.willAdd c' s hs
    waits := by
      intro s hs
      rcases h.waits s hs with hex | hd | ⟨c', hc'⟩
      · exact .inl hex
      · exact .inr (.inl hd)
      · by_cases hc : c' = c
        · subst hc
          exact (hwait s hc').imp_right .inl
        · exact .inr (.inr ⟨c', by rwa [Function.update_of_ne hc]⟩) }

end Registered

/-! ## The life of a sink -/

/-- There is a reference to the sink. -/
def Strong (v : List SinkId) (sinks : SinkId → Sink T R) (s : SinkId) : Prop :=
  s ∈ v ∨ (sinks s).temps.Nonempty

/-- Some thread is in `~Sink`, at the join. -/
def Joining (pc : WorkerPc) (clients : ClientId → Client T R) (s : SinkId) : Prop :=
  pc.joins = some s ∨ ∃ c, (clients c).pc.joins = some s

theorem strong_iff {σ : State T R} {s : SinkId} :
    σ.strong s = true ↔ Strong σ._sinks σ.sinks s := by
  simp [State.strong, Strong]

theorem not_strong_iff {σ : State T R} {s : SinkId} :
    σ.strong s = false ↔ ¬ Strong σ._sinks σ.sinks s := by
  rw [← strong_iff, Bool.not_eq_true]

/-- What holds of one sink, by whether it is referred to and whether it is being joined. -/
structure SinkOk (k : Sink T R) (strong joining : Prop) : Prop where
  sound : k._bg.Sound
  still_open : k.created = false ∨ strong → .done ∉ k._bg.sent
  closed : k.created = true → ¬ strong → k._bg.Closed ∧ (k._bg.finished = true ∨ joining)
  not_strong : joining → k.created = true ∧ ¬ strong
  real : k.created = true → k._real_sink.isSome = true ∨ k._bg.finished = true

namespace SinkOk
variable {k : Sink T R} {strong joining strong' joining' : Prop}

theorem unmade : SinkOk (.unmade : Sink T R) strong False where
  sound := Active.sound_createActive
  still_open := fun _ => by simp [Sink.unmade]
  closed := by simp [Sink.unmade]
  not_strong := False.elim
  real := by simp [Sink.unmade]

theorem congr (h : SinkOk k strong joining) (hs : strong' ↔ strong) (hj : joining' ↔ joining) :
    SinkOk k strong' joining' := by
  rwa [propext hs, propext hj]

/-- Something other than the destructor's callback is sent, through a reference. -/
theorem send (h : SinkOk k strong joining) (hstrong : strong)
    (task : SinkTask T R) : SinkOk { k with _bg := k._bg.send (.work task) } strong joining where
  sound := h.sound.send _
  still_open := fun _ => by simp [h.still_open (.inr hstrong)]
  closed := fun _ hnot => absurd hstrong hnot
  not_strong := h.not_strong
  real := h.real

theorem make (real_sink : T) (call : LogMessage → T → T) (c : ClientId) (hstrong : strong)
    (hj : ¬ joining) : SinkOk (.make real_sink call c : Sink T R) strong joining where
  sound := Active.sound_createActive
  still_open := fun _ => by simp [Sink.make]
  closed := fun _ hnot => absurd hstrong hnot
  not_strong := fun hj' => absurd hj' hj
  real := fun _ => .inl rfl

/-- The last reference goes, and `~Sink` begins. -/
theorem close (h : SinkOk k strong joining) (hstrong : strong) (hcreated : k.created = true)
    (hnot : ¬ strong') (hj : joining') {temps : Finset ClientId} :
    SinkOk { k.close with temps := temps } strong' joining' where
  sound := h.sound.send _
  still_open := fun hopen => by
    rcases hopen with hc | hs
    · simp [Sink.close, hcreated] at hc
    · exact absurd hs hnot
  closed := fun _ _ => ⟨⟨k._bg.sent, by simp [Sink.close], h.still_open (.inr hstrong)⟩, .inr hj⟩
  not_strong := fun _ => ⟨hcreated, hnot⟩
  real := h.real

/-- A reference more, or one less that is not the last. -/
theorem share (h : SinkOk k strong joining) (hstrong : strong) (hs : strong')
    {temps : Finset ClientId} {handle : Bool} :
    SinkOk { k with temps := temps, handle := handle } strong' joining where
  sound := h.sound
  still_open := fun _ => h.still_open (.inr hstrong)
  closed := fun _ hnot => absurd hs hnot
  not_strong := fun hj => absurd hstrong (h.not_strong hj).2
  real := h.real

/-- `~Sink` returns. -/
theorem destroy (h : SinkOk k strong joining) (hfinished : k._bg.finished = true)
    (hj : joining' → joining) {handle : Bool} :
    SinkOk { k with _real_sink := none, handle := handle } strong joining' where
  sound := h.sound
  still_open := h.still_open
  closed := fun hc hnot => ⟨(h.closed hc hnot).1, .inl hfinished⟩
  not_strong := fun hj' => h.not_strong (hj hj')
  real := fun _ => .inr hfinished

theorem turn (h : SinkOk k strong joining) {k' : Sink T R} {out : Option (CallId × R)}
    (hturn : k.turn = some (k', out)) : SinkOk k' strong joining := by
  obtain ⟨hc, -, -, hsent⟩ := Sink.turn_frame hturn
  have hbg : k'._bg.Sound ∧ (k._bg.finished = true → k'._bg.finished = true) ∧
      (k._real_sink.isSome = true → k'._real_sink.isSome = true) := by
    unfold Sink.turn at hturn
    split at hturn
    · split at hturn
      all_goals
        obtain ⟨bg, hbg, heq⟩ := Option.map_eq_some_iff.mp hturn
        obtain ⟨rfl, -⟩ := Prod.mk.inj heq
      · refine ⟨h.sound.exit hbg, fun _ => ?_, id⟩
        obtain ⟨-, -, -, rfl⟩ := Active.exit_eq_some hbg
        rfl
      · refine ⟨h.sound.pop hbg, fun hf => ?_, id⟩
        obtain ⟨c, rest, -, -, -, rfl⟩ := Active.pop_eq_some hbg
        exact hf
    · next hfunc =>
        obtain ⟨rfl, -⟩ := Prod.mk.inj (Option.some.inj hturn)
        exact ⟨h.sound.ret hfunc, id, id⟩
    · next task hfunc =>
        obtain ⟨real_sink, -, heq⟩ := Option.map_eq_some_iff.mp hturn
        obtain ⟨rfl, -⟩ := Prod.mk.inj heq
        exact ⟨h.sound.ret hfunc, id, fun _ => rfl⟩
  obtain ⟨hsound, hfinished, hreal⟩ := hbg
  refine ⟨hsound, ?_, ?_, ?_, ?_⟩
  · rw [hc, hsent]
    exact h.still_open
  · intro hcr hnot
    rw [hc] at hcr
    obtain ⟨⟨cs, hcs, hd⟩, hfin⟩ := h.closed hcr hnot
    exact ⟨⟨cs, hsent.trans hcs, hd⟩, hfin.imp_left hfinished⟩
  · rw [hc]
    exact h.not_strong
  · rw [hc]
    exact fun hcr => (h.real hcr).imp hreal hfinished

/-- The thread of the sink can go on until it is through, unless its queue is empty. -/
theorem isSome_turn (h : SinkOk k strong joining) (hcreated : k.created = true)
    (hrunning : k._bg.finished = false)
    (hmq : k._bg.func = none → k._bg.done_ = false → k._bg.mq_ ≠ []) : k.turn.isSome := by
  unfold Sink.turn
  split
  · next hfunc =>
      cases hdone : k._bg.done_ with
      | true => simp [Active.exit, hfunc, hdone, hrunning]
      | false => simpa using Active.isSome_pop hfunc hdone (hmq hfunc hdone)
  · rfl
  · have hreal := (h.real hcreated).resolve_right (by simp [hrunning])
    simpa using hreal

end SinkOk

/-- Every sink is all right. -/
def SinkLife (v : List SinkId) (sinks : SinkId → Sink T R) (pc : WorkerPc)
    (clients : ClientId → Client T R) : Prop :=
  ∀ s, SinkOk (sinks s) (Strong v sinks s) (Joining pc clients s)

namespace SinkLife
variable {v v' : List SinkId} {sinks : SinkId → Sink T R} {pc pc' : WorkerPc}
  {clients clients' : ClientId → Client T R}

/-- A change that concerns one sink only. -/
theorem update (h : SinkLife v sinks pc clients) {s : SinkId} {k : Sink T R}
    (hv : ∀ s' ≠ s, s' ∈ v' ↔ s' ∈ v)
    (hj : ∀ s' ≠ s, Joining pc' clients' s' ↔ Joining pc clients s')
    (hk : SinkOk k (s ∈ v' ∨ k.temps.Nonempty) (Joining pc' clients' s)) :
    SinkLife v' (Function.update sinks s k) pc' clients' := by
  intro s'
  by_cases hs : s' = s
  · subst hs
    simpa [Strong] using hk
  · rw [Function.update_of_ne hs]
    refine (h s').congr ?_ (hj s' hs)
    simp [Strong, Function.update_of_ne hs, hv s' hs]

theorem move (h : SinkLife v sinks pc clients)
    (hj : ∀ s, Joining pc' clients' s ↔ Joining pc clients s) :
    SinkLife v sinks pc' clients' :=
  fun s => (h s).congr Iff.rfl (hj s)

end SinkLife

theorem joining_update_iff {pc : WorkerPc} {clients : ClientId → Client T R} {c : ClientId}
    {k : Client T R} (hk : k.pc.joins = (clients c).pc.joins) (s : SinkId) :
    Joining pc (Function.update clients c k) s ↔ Joining pc clients s := by
  have hjoins : ∀ c', (Function.update clients c k c').pc.joins = (clients c').pc.joins := by
    intro c'
    by_cases hc : c' = c
    · subst hc; simpa using hk
    · simp [hc]
  simp [Joining, hjoins]

/-- Joining another sink, or none, is the same for the sinks it is not about. -/
theorem joining_update_of_ne {pc : WorkerPc} {clients : ClientId → Client T R} {c : ClientId}
    {k : Client T R} {s s' : SinkId} (hs : s' ≠ s)
    (hold : (clients c).pc.joins = none ∨ (clients c).pc.joins = some s)
    (hnew : k.pc.joins = none ∨ k.pc.joins = some s) :
    Joining pc (Function.update clients c k) s' ↔ Joining pc clients s' := by
  have hjoins : ∀ c', (Function.update clients c k c').pc.joins = some s' ↔
      (clients c').pc.joins = some s' := by
    intro c'
    by_cases hc : c' = c
    · subst hc
      rw [Function.update_self]
      rcases hold with hold | hold <;> rcases hnew with hnew | hnew <;>
        simp [hold, hnew, Ne.symm hs]
    · rw [Function.update_of_ne hc]
  simp [Joining, hjoins]

theorem joining_pc_iff {pc pc' : WorkerPc} (h : pc'.joins = pc.joins)
    (clients : ClientId → Client T R) (s : SinkId) :
    Joining pc' clients s ↔ Joining pc clients s := by
  rw [Joining, Joining, h]

theorem joining_pc_of_ne {pc pc' : WorkerPc} {s s' : SinkId} (hs : s' ≠ s)
    (hold : pc.joins = none ∨ pc.joins = some s) (hnew : pc'.joins = none ∨ pc'.joins = some s)
    (clients : ClientId → Client T R) : Joining pc' clients s' ↔ Joining pc clients s' := by
  rcases hold with hold | hold <;> rcases hnew with hnew | hnew <;>
    simp [Joining, hold, hnew, Ne.symm hs]

/-- The vector lets go of a sink that is held elsewhere. -/
theorem SinkLife.tail {v rest : List SinkId} {sinks : SinkId → Sink T R} {pc : WorkerPc}
    {clients : ClientId → Client T R} {s : SinkId} (h : SinkLife v sinks pc clients)
    (hv : v = s :: rest) (hstrong : Strong rest sinks s) : SinkLife rest sinks pc clients := by
  intro s'
  refine (h s').congr ?_ Iff.rfl
  by_cases hs : s' = s
  · subst hs
    exact iff_of_true hstrong (hstrong.imp_left fun hmem => by simp [hv, hmem])
  · simp [Strong, hv, hs]

/-! ## All of it -/

/-- Who holds which sink, what the worker does, and how the sinks fare. -/
structure Owned (σ : State T R) : Prop where
  held : Held σ.sinks σ.clients
  worker : WorkerOk σ._bg σ.pc
  registered : Registered σ._bg σ._sinks σ.bgDeleted σ.sinks σ.clients
  life : SinkLife σ._sinks σ.sinks σ.pc σ.clients

namespace Owned
variable {σ σ' : State T R}

theorem strong_of_holds (h : Owned σ) {c : ClientId} {s : SinkId}
    (hc : (σ.clients c).pc.holds = some s) : Strong σ._sinks σ.sinks s :=
  .inr ⟨c, (h.held.temps_iff c s).mpr hc⟩

/-- A sink whose thread is waited for has no reference left. -/
theorem of_joins (h : Owned σ) {s : SinkId} (hj : Joining σ.pc σ.clients s) :
    (σ.sinks s).created = true ∧ (σ.sinks s).temps = ∅ := by
  obtain ⟨hc, hnot⟩ := (h.life s).not_strong hj
  refine ⟨hc, ?_⟩
  by_contra hne
  exact hnot (.inr (Finset.nonempty_iff_ne_empty.mpr hne))

/-- A sink in a worker's add task that is being executed is held by the client that
waits for the task. -/
theorem strong_of_func (h : Owned σ) {s : SinkId} (hpc : σ.pc = .addSink s) :
    .work (.addSink s) ∉ σ._bg.executed ∧ Strong σ._sinks σ.sinks s := by
  have hfunc : σ._bg.func = some (.work (.addSink s)) := by rw [h.worker.func, hpc]; rfl
  have hnot : .work (.addSink s) ∉ σ._bg.executed := by
    intro hmem
    have hpos := List.count_pos_iff.mpr hmem
    have honce := h.registered.once s
    simp only [Active.sent, hfunc, List.count_append, Option.toList_some, List.count_singleton,
      beq_self_eq_true, if_true] at honce
    omega
  refine ⟨hnot, ?_⟩
  rcases h.registered.waits s (Active.mem_sent_of_func hfunc) with hex | hd | ⟨c, hc⟩
  · exact absurd hex hnot
  · have hdone := h.worker.sound.done_of_finished (h.registered.deleted hd)
    simp [h.worker.sound.func_of_done hdone] at hfunc
  · exact h.strong_of_holds (by rw [hc]; rfl)

theorem life_clientStep (h : Owned σ) {c : ClientId} {fresh : SinkId}
    (hs : ClientStep c fresh σ σ') : SinkLife σ'._sinks σ'.sinks σ'.pc σ'.clients := by
  have hlife := h.life
  cases hs with
  | @make real_sink call _ hpc hprogram hfresh =>
      have hnot : ¬ Joining σ.pc σ.clients fresh := fun hj => by
        simp [((hlife fresh).not_strong hj).1] at hfresh
      refine (hlife.update (fun _ _ => Iff.rfl) (fun _ _ => Iff.rfl)
        (.make real_sink call c (.inr ⟨c, by simp [Sink.make]⟩) hnot)).move (joining_update_iff ?_)
      simp [hpc, ClientPc.joins]
  | @lock s _ _ hpc hprogram hhandle hstrong =>
      refine (hlife.update (fun _ _ => Iff.rfl) (fun _ _ => Iff.rfl)
        ((hlife s).share (strong_iff.mp hstrong) ?_)).move (joining_update_iff ?_)
      · exact .inr (Finset.insert_nonempty c _)
      · simp [hpc, ClientPc.joins]
  | @async s _ _ hpc =>
      have hstrong := h.strong_of_holds (c := c) (s := s) (by rw [hpc]; rfl)
      refine (hlife.update (fun _ _ => Iff.rfl) (fun _ _ => Iff.rfl)
        ((hlife s).send hstrong _)).move (joining_update_iff ?_)
      simp [hpc, ClientPc.joins]
  | @releaseShared s role hpc hstrong =>
      have hheld := h.strong_of_holds (c := c) (s := s) (by rw [hpc]; rfl)
      rw [sinks_release]
      refine (hlife.update (fun _ _ => Iff.rfl) (fun _ _ => Iff.rfl)
        ((hlife s).share hheld ?_)).move (joining_update_iff ?_)
      · simpa [strong_iff, Strong] using hstrong
      · cases role <;> simp [hpc, ClientPc.joins]
  | @releaseLast s role hpc hstrong =>
      have hheld := h.strong_of_holds (c := c) (s := s) (by rw [hpc]; rfl)
      refine hlife.update (fun _ _ => Iff.rfl)
        (fun s' hs => joining_update_of_ne hs (.inl (by simp [hpc, ClientPc.joins]))
          (.inr rfl)) ?_
      refine (hlife s).close hheld (h.held.created (c := c) (by rw [hpc]; rfl)) ?_
        (.inr ⟨c, by simp [ClientPc.joins]⟩)
      simpa [not_strong_iff, Strong] using hstrong
  | @join s role hpc hfinished =>
      have hj : Joining σ.pc σ.clients s := .inr ⟨c, by simp [hpc, ClientPc.joins]⟩
      rw [sinks_destroySink_release]
      have hnext : ClientPc.joins (if role = .destructor then (.destroySinks : ClientPc T R)
          else .idle) = none := by cases role <;> rfl
      refine hlife.update (fun _ _ => Iff.rfl)
        (fun s' hs => joining_update_of_ne hs
          (.inr (by simp [State.destroySink, hpc, ClientPc.joins])) (.inl hnext)) ?_
      exact (hlife s).destroy hfinished fun _ => hj
  | @destroyLast s rest hpc hsinks hstrong =>
      refine hlife.update (fun s' hs => by simp [hsinks, hs])
        (fun s' hs => joining_update_of_ne hs (.inl (by simp [hpc, ClientPc.joins]))
          (.inr rfl)) ?_
      exact (hlife s).close (.inl (by simp [hsinks]))
        (h.registered.vector_created (by simp [hsinks])) (not_strong_iff.mp hstrong)
        (.inr ⟨c, by simp [ClientPc.joins]⟩)
  | destroyShared hpc hsinks hstrong => exact hlife.tail hsinks (strong_iff.mp hstrong)
  | _ hpc =>
      refine hlife.move (joining_update_iff ?_)
      simp [hpc, ClientPc.joins]

theorem life_workerStep (h : Owned σ) (hs : WorkerStep σ σ') :
    SinkLife σ'._sinks σ'.sinks σ'.pc σ'.clients := by
  have hlife := h.life
  cases hs with
  | @bgSave msg i s hpc hs | @bgFatal msg i s hpc hs =>
      exact (hlife.update (fun _ _ => Iff.rfl) (fun _ _ => Iff.rfl)
        ((hlife s).send (.inl (List.mem_of_getElem? hs)) _)).move
        (joining_pc_iff (by simp [hpc, WorkerPc.joins]) _)
  | @addSink s hpc =>
      have hstrong := (h.strong_of_func hpc).2
      intro s'
      refine (hlife s').congr ?_ (joining_pc_iff (by simp [State.ret, hpc, WorkerPc.joins]) _ s')
      by_cases hs : s' = s
      · subst hs
        exact iff_of_true (.inl (by simp)) hstrong
      · simp [Strong, State.ret, hs]
  | clearShared hpc hsinks hstrong => exact hlife.tail hsinks (strong_iff.mp hstrong)
  | @clearLast fatal s rest hpc hsinks hstrong =>
      refine hlife.update (fun s' hs => by simp [hsinks, hs])
        (fun s' hs => joining_pc_of_ne hs (.inl (by simp [hpc, WorkerPc.joins])) (.inr rfl) _) ?_
      exact (hlife s).close (.inl (by simp [hsinks]))
        (h.registered.vector_created (by simp [hsinks])) (not_strong_iff.mp hstrong) (.inl rfl)
  | @join s fatal hpc hfinished =>
      refine hlife.update (fun _ _ => Iff.rfl)
        (fun s' hs => joining_pc_of_ne hs (.inr (by simp [hpc, WorkerPc.joins])) (.inl rfl) _) ?_
      exact (hlife s).destroy hfinished fun _ => .inl (by simp [hpc, WorkerPc.joins])
  | exit | exitWithDefaultSignalHandler => exact hlife
  | @pop bg c hpc hpop hfunc =>
      refine hlife.move (joining_pc_iff ?_ _)
      rw [hpc]
      cases c with
      | work task => cases task <;> rfl
      | done => rfl
  | _ hpc => exact hlife.move (joining_pc_iff (by simp [State.ret, hpc, WorkerPc.joins]) _)

theorem registered_workerStep (h : Owned σ) (hs : WorkerStep σ σ') :
    Registered σ'._bg σ'._sinks σ'.bgDeleted σ'.sinks σ'.clients := by
  have hreg := h.registered
  cases hs with
  | exit hpc hexit =>
      refine hreg.proceed (Active.sent_exit hexit) ?_ fun _ => ?_
      all_goals obtain ⟨-, -, -, rfl⟩ := Active.exit_eq_some hexit
      · exact fun _ hm => hm
      · rfl
  | pop hpc hpop hfunc =>
      refine hreg.proceed (Active.sent_pop hpop) ?_ ?_
      all_goals obtain ⟨c, rest, -, -, -, rfl⟩ := Active.pop_eq_some hpop
      · exact fun _ hm => hm
      · exact id
  | bgSave hpc hs | bgFatal hpc hs =>
      exact hreg.setSink (hreg.vector_created (List.mem_of_getElem? hs))
  | @addSink s hpc =>
      have hfunc : σ._bg.func = some (.work (.addSink s)) := by rw [h.worker.func, hpc]; rfl
      have hexecuted : .work (.addSink s) ∈ σ._bg.ret.executed := by simp [Active.ret, hfunc]
      refine { hreg.ret with vector := fun s' hs' => ?_, nodup := ?_ }
      · rcases List.mem_append.mp hs' with hs' | hs'
        · exact hreg.ret.vector s' hs'
        · obtain rfl := List.mem_singleton.mp hs'
          exact hexecuted
      · have hnew : s ∉ σ._sinks := fun hs => (h.strong_of_func hpc).1 (hreg.vector s hs)
        exact List.nodup_append.mpr ⟨hreg.nodup, List.nodup_singleton s, by
          rintro a ha b hb rfl
          exact hnew (List.mem_singleton.mp hb ▸ ha)⟩
  | bgSaveEnd | clearEnd | done => exact hreg.ret
  | clearShared hpc hsinks hstrong => exact hreg.tail hsinks
  | clearLast hpc hsinks hstrong =>
      exact (hreg.tail hsinks).setSink (hreg.vector_created (by simp [hsinks]))
  | @join s fatal hpc hfinished =>
      exact hreg.setSink (h.of_joins (.inl (by simp [hpc, WorkerPc.joins]))).1
  | _ => exact hreg

/-- A client sends its add task, and waits. -/
theorem registered_sendAdd (h : Owned σ) {c : ClientId} {s : SinkId}
    (hpc : (σ.clients c).pc = .sendAdd s) :
    Registered (σ._bg.send (.work (.addSink s))) σ._sinks σ.bgDeleted σ.sinks
      (Function.update σ.clients c { σ.clients c with pc := .waitAdd s }) := by
  have hreg := h.registered
  have hnew : .work (.addSink s) ∉ σ._bg.sent := hreg.willAdd c s (by rw [hpc]; rfl)
  have hmem : ∀ s' ≠ s, .work (.addSink s') ∈ (σ._bg.send (.work (.addSink s))).sent →
      .work (.addSink s') ∈ σ._bg.sent := by
    intro s' hs hm
    simpa [hs] using hm
  refine ⟨fun s' => ?_, fun c' s' hc' => ?_, fun s' hs' => ?_, hreg.vector, hreg.nodup,
    fun s' hs' => ?_, hreg.deleted⟩
  · rw [Active.sent_send, List.count_append, List.count_singleton]
    by_cases hs : s' = s
    · subst hs
      simp [List.count_eq_zero.mpr hnew]
    · simpa [Ne.symm hs] using hreg.once s'
  · have hcc : c' ≠ c := by
      rintro rfl
      simp [ClientPc.willAdd] at hc'
    rw [Function.update_of_ne hcc] at hc'
    have hs : s' ≠ s := by
      rintro rfl
      exact hcc ((h.held.adder c s' (by rw [hpc]; rfl)).2.2 c' (ClientPc.adds_of_willAdd hc'))
    exact fun hm => hreg.willAdd c' s' hc' (hmem s' hs hm)
  · by_cases hs : s' = s
    · subst hs
      exact h.held.created (c := c) (by rw [hpc]; rfl)
    · exact hreg.created s' (hmem s' hs hs')
  · by_cases hs : s' = s
    · subst hs
      exact .inr (.inr ⟨c, by simp⟩)
    · refine (hreg.waits s' (hmem s' hs hs')).imp_right (.imp_right fun ⟨c', hc'⟩ => ⟨c', ?_⟩)
      have hcc : c' ≠ c := by
        rintro rfl
        simp [hpc] at hc'
      rwa [Function.update_of_ne hcc]

theorem registered_clientStep (h : Owned σ) {c : ClientId} {fresh : SinkId}
    (hs : ClientStep c fresh σ σ') :
    Registered σ'._bg σ'._sinks σ'.bgDeleted σ'.sinks σ'.clients := by
  have hreg := h.registered
  cases hs with
  | make hpc hprogram hfresh =>
      refine (hreg.setSink rfl).move (fun s hs hsent => ?_) ?_
      · obtain rfl : fresh = s := by simpa [ClientPc.willAdd] using hs
        simp [hreg.created fresh hsent] at hfresh
      · simp [hpc]
  | @readBg s hpc hptr =>
      refine hreg.move (fun s' hs => ?_) ?_
      · exact hreg.willAdd c s' (by simpa [hpc, ClientPc.willAdd] using hs)
      · simp [hpc]
  | sendAdd hpc => exact h.registered_sendAdd hpc
  | sendSave hpc | sendClear hpc | resetBg hpc =>
      refine (hreg.send ?_).move ?_ ?_
      all_goals simp [hpc, ClientPc.willAdd]
  | @waitAdd s hpc hready =>
      refine hreg.move ?_ fun s' hs => ?_
      · simp [ClientPc.willAdd]
      · obtain rfl : s = s' := by simpa [hpc] using hs
        exact hready
  | joinBg hpc hfinished =>
      have hmoved := hreg.move (c := c) (k := { σ.clients c with pc := .destroySinks })
        (by simp [ClientPc.willAdd]) (by simp [hpc])
      exact { hmoved with waits := fun _ _ => .inr (.inl rfl), deleted := fun _ => hfinished }
  | lock hpc hprogram hhandle hstrong =>
      refine (hreg.setSink ?_).move ?_ ?_
      · exact h.held.created_of_handle hhandle
      all_goals simp [hpc, ClientPc.willAdd]
  | @async s _ _ hpc | @releaseLast s _ hpc =>
      refine (hreg.setSink ?_).move ?_ ?_
      · exact h.held.created (c := c) (s := s) (by rw [hpc]; rfl)
      all_goals simp [hpc, ClientPc.willAdd]
  | @releaseShared s role hpc =>
      rw [sinks_release]
      refine (hreg.setSink ?_).move ?_ ?_
      · exact h.held.created (c := c) (s := s) (by rw [hpc]; rfl)
      all_goals cases role <;> simp [hpc, ClientPc.willAdd]
  | @join s role hpc hfinished =>
      have hcreated := (h.of_joins (s := s) (.inr ⟨c, by simp [hpc, ClientPc.joins]⟩)).1
      rw [sinks_destroySink_release]
      refine (hreg.setSink ?_).move ?_ ?_
      · exact hcreated
      all_goals cases role <;> simp [hpc, ClientPc.willAdd]
  | destroyShared hpc hsinks hstrong => exact hreg.tail hsinks
  | @destroyLast s rest hpc hsinks hstrong =>
      have hcreated : (σ.sinks s).created = true := hreg.vector_created (by simp [hsinks])
      refine ((hreg.tail hsinks).setSink ?_).move ?_ ?_
      · exact hcreated
      all_goals simp [hpc, ClientPc.willAdd]
  | _ hpc =>
      refine hreg.move ?_ ?_
      all_goals simp [hpc, ClientPc.willAdd]

theorem clientStep (h : Owned σ) {c : ClientId} {fresh : SinkId} (hs : ClientStep c fresh σ σ') :
    Owned σ' where
  held := h.held.clientStep (fun _ hj => h.of_joins (.inr ⟨c, hj⟩))
    (fun _ hv => h.registered.vector_created hv) hs
  worker := h.worker.clientStep hs
  registered := h.registered_clientStep hs
  life := h.life_clientStep hs

theorem workerStep (h : Owned σ) (hs : WorkerStep σ σ') : Owned σ' where
  held := h.held.workerStep (fun _ hv => h.registered.vector_created hv)
    (fun _ hj => (h.of_joins (.inl hj)).1) hs
  worker := h.worker.workerStep hs
  registered := h.registered_workerStep hs
  life := h.life_workerStep hs

theorem sinkStep (h : Owned σ) {s : SinkId} (hs : SinkStep s σ σ') : Owned σ' := by
  refine ⟨h.held.sinkStep hs, ?_, ?_, ?_⟩
  all_goals
    cases hs with
    | turn hcreated hturn | value hcreated hturn =>
        first
        | exact h.worker
        | exact h.registered.setSink ((Sink.turn_frame hturn).1.trans hcreated)
        | exact h.life.update (fun _ _ => Iff.rfl) (fun _ _ => Iff.rfl)
            (((h.life s).turn hturn).congr (by simp [Strong, (Sink.turn_frame hturn).2.1]) Iff.rfl)

theorem overlay (h : Owned σ) (hs : Overlay σ σ') : Owned σ' := by
  cases hs with
  | keep fatal firstExit exited => exact ⟨h.held, h.worker, h.registered, h.life⟩
  | send fatal msg =>
      exact ⟨h.held, h.worker.sendBg _, h.registered.send (by simp), h.life⟩

theorem step (h : Owned σ) {a : Action} (hs : Step σ a σ') : Owned σ' := by
  rcases hs.data with ⟨c, fresh, hs⟩ | hs | ⟨s, hs⟩ | hs
  · exact h.clientStep hs
  · exact h.workerStep hs
  · exact h.sinkStep hs
  · exact h.overlay hs

theorem init (programs : ClientId → List (Op T R)) (active : Bool) :
    Owned (G3log.init programs active) where
  held := ⟨by simp [G3log.init, Sink.unmade, ClientPc.holds], fun _ _ => rfl,
    by simp [G3log.init, ClientPc.adds], by simp [G3log.init, ClientPc.holds]⟩
  worker := ⟨Active.sound_createActive, rfl, by simp [G3log.init, Active.createActive]⟩
  registered := ⟨by simp [G3log.init], by simp [G3log.init], by simp [G3log.init],
    by simp [G3log.init], List.nodup_nil, by simp [G3log.init], by simp [G3log.init]⟩
  life := fun s => SinkOk.unmade.congr Iff.rfl
    (by simp [Joining, G3log.init, WorkerPc.joins, ClientPc.joins])

end Owned

/-- The invariant holds in every reachable state, whatever the clients and fatal events do. -/
theorem owned {Ok : State T R → Action → Prop} {σ : State T R}
    (h : (logWorker T R).ReachableBy Ok σ) : Owned σ := by
  refine h.invariant ?_ fun σ a σ' _ _ hσ hs => hσ.step (step_cases hs).2
  rintro _ ⟨programs, active, rfl⟩
  exact Owned.init programs active

end G3log
