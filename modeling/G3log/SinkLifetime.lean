import G3log.Delivery

/-!
# Log calls and destructors

Which step of the worker makes the default log call of a real sink, and which one runs
its destructor. A real sink that is not referred to any more, and that no thread joins,
has been destroyed.

## Main definitions

* `Effect`, `State.effect` -- what a step does to a real sink.
* `Step.touches` -- the effect tells what becomes of a sink.
* `Lives`, `real_sink_eq_none` -- a sink is referred to, joined or destroyed.
-/

namespace G3log

open Transition

variable {T R : Type}

/-! ## Effects -/

/-- What a step does to a real sink. -/
inductive Effect
  | none
  /-- The default log call. -/
  | log (s : SinkId) (msg : LogMessage)
  /-- The destructor, from `~Sink`. -/
  | destroy (s : SinkId)
  deriving DecidableEq

def State.effect (σ : State T R) : Action → Effect
  | .client c _ =>
      match (σ.clients c).pc with
      | .join s _ => .destroy s
      | _ => .none
  | .worker =>
      match σ.pc with
      | .join s _ => .destroy s
      | _ => .none
  | .sink s =>
      match (σ.sinks s)._bg.func with
      | some (.work (.log msg)) => .log s msg
      | _ => .none
  | _ => .none

/-- The messages an effect logs to one sink. -/
def Effect.logs (s : SinkId) : Effect → List LogMessage
  | .log s' msg => if s' = s then [msg] else []
  | _ => []

@[simp] theorem Effect.logs_none (s : SinkId) : Effect.none.logs s = [] := rfl

@[simp] theorem Effect.logs_destroy (s s' : SinkId) : (Effect.destroy s').logs s = [] := rfl

/-- What an effect makes of a sink. -/
structure Touched (s : SinkId) (k : Sink T R) (effect : Effect) (k' : Sink T R) : Prop where
  created : k.created = true → k'.created = true
  logged : k'.logged = k.logged ++ effect.logs s
  gone : k.created = true →
    (k'._real_sink = none ↔ k._real_sink = none ∨ effect = .destroy s)
  real : ∀ msg, effect = .log s msg → k._real_sink ≠ none

namespace Touched
variable {s s' : SinkId} {k k' : Sink T R} {effect : Effect}

theorem keep (hcreated : k'.created = k.created) (hlogged : k'.logged = k.logged)
    (hreal : k'._real_sink = k._real_sink) : Touched s k .none k' where
  created := by simp [hcreated]
  logged := by simp [hlogged]
  gone := by simp [hreal]
  real := by simp

theorem destroyed {handle : Bool} :
    Touched s k (.destroy s) { k with _real_sink := none, handle := handle } where
  created := id
  logged := by simp [Sink.logged]
  gone := by simp
  real := by simp

/-- A sink that an effect is not about. -/
theorem other (hlogs : effect.logs s = []) (hdestroy : effect ≠ .destroy s) :
    Touched s k effect k where
  created := id
  logged := by simp [hlogs]
  gone := by simp [hdestroy]
  real := by
    rintro msg rfl
    simp [Effect.logs] at hlogs

theorem update (sinks : SinkId → Sink T R) (hk : Touched s (sinks s) effect k)
    (hother : ∀ s', s' ≠ s → effect.logs s' = [] ∧ effect ≠ .destroy s') (s' : SinkId) :
    Touched s' (sinks s') effect (Function.update sinks s k s') := by
  by_cases hs : s' = s
  · subst hs
    simpa using hk
  · rw [Function.update_of_ne hs]
    exact .other (hother s' hs).1 (hother s' hs).2

theorem update_none (sinks : SinkId → Sink T R) (hk : Touched s (sinks s) .none k)
    (s' : SinkId) : Touched s' (sinks s') .none (Function.update sinks s k s') :=
  hk.update sinks (by simp) s'

end Touched

section
variable {σ σ' : State T R}

theorem ClientStep.touches {c : ClientId} {fresh : SinkId} (h : ClientStep c fresh σ σ')
    (ho : Owned σ) (s : SinkId) :
    Touched s (σ.sinks s) (σ.effect (.client c fresh)) (σ'.sinks s) := by
  cases h with
  | make hpc hprogram hfresh =>
      rw [State.effect, hpc]
      refine Touched.update_none σ.sinks ⟨fun _ => rfl, ?_, ?_, by simp⟩ s
      · rw [ho.held.unmade fresh hfresh]
        rfl
      · simp [hfresh]
  | lock hpc | async hpc | releaseLast hpc | destroyLast hpc =>
      rw [State.effect, hpc]
      refine Touched.update_none σ.sinks ?_ s
      exact .keep rfl rfl rfl
  | releaseShared hpc =>
      rw [State.effect, hpc, sinks_release]
      refine Touched.update_none σ.sinks ?_ s
      exact .keep rfl rfl rfl
  | @join s₀ role hpc hfinished =>
      rw [State.effect, hpc, sinks_destroySink_release]
      refine Touched.update σ.sinks ?_ (fun s' hs => ⟨rfl, by simpa using Ne.symm hs⟩) s
      exact .destroyed
  | _ hpc =>
      rw [State.effect, hpc]
      exact .keep rfl rfl rfl

theorem WorkerStep.touches (h : WorkerStep σ σ') (s : SinkId) :
    Touched s (σ.sinks s) (σ.effect .worker) (σ'.sinks s) := by
  cases h with
  | bgSave hpc | bgFatal hpc | clearLast hpc =>
      rw [State.effect, hpc]
      refine Touched.update_none σ.sinks ?_ s
      exact .keep rfl rfl rfl
  | @join s₀ fatal hpc hfinished =>
      rw [State.effect, hpc]
      refine Touched.update σ.sinks ?_ (fun s' hs => ⟨rfl, by simpa using Ne.symm hs⟩) s
      exact .destroyed
  | _ hpc =>
      rw [State.effect, hpc]
      exact .keep rfl rfl rfl

/-- The effect of a turn, by the callback that the sink's thread is in. -/
theorem touched_turn {s : SinkId} {k k' : Sink T R} {out : Option (CallId × R)}
    (h : k.turn = some (k', out)) :
    Touched s k (match k._bg.func with
      | some (.work (.log msg)) => .log s msg
      | _ => .none) k' := by
  unfold Sink.turn at h
  split at h
  · next hfunc =>
      simp only [hfunc]
      split at h
      all_goals
        obtain ⟨bg, hbg, heq⟩ := Option.map_eq_some_iff.mp h
        obtain ⟨rfl, -⟩ := Prod.mk.inj heq
      · obtain ⟨-, -, -, rfl⟩ := Active.exit_eq_some hbg
        exact .keep rfl rfl rfl
      · obtain ⟨-, -, -, -, -, rfl⟩ := Active.pop_eq_some hbg
        exact .keep rfl rfl rfl
  · next hfunc =>
      simp only [hfunc]
      obtain ⟨rfl, -⟩ := Prod.mk.inj (Option.some.inj h)
      refine .keep rfl ?_ rfl
      simp [Sink.logged, Active.ret, hfunc]
  · next task hfunc =>
      obtain ⟨real_sink, hreal, heq⟩ := Option.map_eq_some_iff.mp h
      obtain ⟨rfl, -⟩ := Prod.mk.inj heq
      simp only [hfunc]
      cases task with
      | log msg =>
          refine ⟨id, ?_, ?_, ?_⟩
          · simp [Sink.logged, Active.ret, hfunc, Effect.logs]
          · simp [hreal]
          · simp [hreal]
      | call id func =>
          refine ⟨fun hcreated => hcreated, ?_, ?_, ?_⟩
          · simp [Sink.logged, Active.ret, hfunc]
          · simp [hreal]
          · simp

theorem SinkStep.touches {s₀ : SinkId} (h : SinkStep s₀ σ σ') (s : SinkId) :
    Touched s (σ.sinks s) (σ.effect (.sink s₀)) (σ'.sinks s) := by
  have hother (s' : SinkId) (hs : s' ≠ s₀) :
      (σ.effect (.sink s₀)).logs s' = [] ∧ σ.effect (.sink s₀) ≠ .destroy s' := by
    rw [State.effect]
    split
    · simp [Effect.logs, Ne.symm hs]
    · simp
  cases h with
  | turn hcreated hturn | value hcreated hturn =>
      exact (touched_turn hturn).update σ.sinks hother s

/-- The effect of a step tells what becomes of each sink. -/
theorem Step.touches {a : Action} (h : Step σ a σ') (ho : Owned σ) (s : SinkId) :
    Touched s (σ.sinks s) (σ.effect a) (σ'.sinks s) := by
  cases h with
  | client _ hs => exact hs.touches ho s
  | worker _ hs => exact hs.touches s
  | sink _ hs => exact hs.touches s
  | fatal hs =>
      have hsinks : σ'.sinks = σ.sinks := by cases hs <;> rfl
      rw [hsinks]
      exact .keep rfl rfl rfl
  | signal | raise | fault => exact .keep rfl rfl rfl

end

/-! ## Destroyed sinks -/

/-- Every real sink is referred to, or its thread is joined, or it is destroyed. -/
def Lives (v : List SinkId) (sinks : SinkId → Sink T R) (pc : WorkerPc)
    (clients : ClientId → Client T R) : Prop :=
  ∀ s, Strong v sinks s ∨ Joining pc clients s ∨ (sinks s)._real_sink = none

namespace Lives
variable {v v' : List SinkId} {sinks : SinkId → Sink T R} {pc pc' : WorkerPc}
  {clients clients' : ClientId → Client T R}

/-- A change that concerns one sink only. -/
theorem update (h : Lives v sinks pc clients) {s : SinkId} {k : Sink T R}
    (hv : ∀ s' ≠ s, s' ∈ v' ↔ s' ∈ v)
    (hj : ∀ s' ≠ s, Joining pc' clients' s' ↔ Joining pc clients s')
    (hk : (s ∈ v' ∨ k.temps.Nonempty) ∨ Joining pc' clients' s ∨ k._real_sink = none) :
    Lives v' (Function.update sinks s k) pc' clients' := by
  intro s'
  by_cases hs : s' = s
  · subst hs
    simpa [Strong] using hk
  · rw [Function.update_of_ne hs, hj s' hs, Strong, Function.update_of_ne hs, hv s' hs]
    exact h s'

/-- A change that keeps the references to all sinks. -/
theorem move (h : Lives v sinks pc clients) (hv : ∀ s, s ∈ v → s ∈ v')
    (hj : ∀ s, Joining pc' clients' s ↔ Joining pc clients s) : Lives v' sinks pc' clients' := by
  intro s
  rw [hj]
  exact (h s).imp_left fun hs => hs.imp_left (hv s)

/-- The vector lets go of a sink that is held elsewhere. -/
theorem tail {s : SinkId} {rest : List SinkId} (h : Lives v sinks pc clients) (hv : v = s :: rest)
    (hstrong : Strong rest sinks s) : Lives rest sinks pc clients := by
  intro s'
  by_cases hs : s' = s
  · subst hs
    exact .inl hstrong
  · refine (h s').imp_left fun hs' => hs'.imp_left fun hmem => ?_
    simpa [hv, hs] using hmem

end Lives

section
variable {σ σ' : State T R}

theorem ClientStep.lives {c : ClientId} {fresh : SinkId} (h : ClientStep c fresh σ σ')
    (hlives : Lives σ._sinks σ.sinks σ.pc σ.clients) :
    Lives σ'._sinks σ'.sinks σ'.pc σ'.clients := by
  cases h with
  | make hpc =>
      refine (hlives.update (fun _ _ => Iff.rfl) (fun _ _ => Iff.rfl) ?_).move (fun _ => id)
        (joining_update_iff ?_)
      · exact .inl (.inr (by simp [Sink.make]))
      · simp [hpc, ClientPc.joins]
  | lock hpc =>
      refine (hlives.update (fun _ _ => Iff.rfl) (fun _ _ => Iff.rfl) ?_).move (fun _ => id)
        (joining_update_iff ?_)
      · exact .inl (.inr (Finset.insert_nonempty c _))
      · simp [hpc, ClientPc.joins]
  | @async s _ _ hpc =>
      refine (hlives.update (fun _ _ => Iff.rfl) (fun _ _ => Iff.rfl) ?_).move (fun _ => id)
        (joining_update_iff ?_)
      · exact hlives s
      · simp [hpc, ClientPc.joins]
  | @releaseShared s role hpc hstrong =>
      rw [sinks_release]
      refine (hlives.update (fun _ _ => Iff.rfl) (fun _ _ => Iff.rfl) ?_).move (fun _ => id)
        (joining_update_iff ?_)
      · exact .inl (by simpa [strong_iff, Strong] using hstrong)
      · cases role <;> simp [hpc, ClientPc.joins]
  | @releaseLast s role hpc hstrong =>
      refine hlives.update (fun _ _ => Iff.rfl)
        (fun s' hs => joining_update_of_ne hs (.inl (by simp [hpc, ClientPc.joins]))
          (.inr rfl)) ?_
      exact .inr (.inl (.inr ⟨c, by simp [ClientPc.joins]⟩))
  | @join s role hpc hfinished =>
      rw [sinks_destroySink_release]
      have hnext : ClientPc.joins (if role = .destructor then (.destroySinks : ClientPc T R)
          else .idle) = none := by cases role <;> rfl
      refine hlives.update (fun _ _ => Iff.rfl)
        (fun s' hs => joining_update_of_ne hs
          (.inr (by simp [State.destroySink, hpc, ClientPc.joins])) (.inl hnext)) ?_
      exact .inr (.inr rfl)
  | destroyShared hpc hsinks hstrong => exact hlives.tail hsinks (strong_iff.mp hstrong)
  | @destroyLast s rest hpc hsinks hstrong =>
      refine hlives.update (fun s' hs => by simp [hsinks, hs])
        (fun s' hs => joining_update_of_ne hs (.inl (by simp [hpc, ClientPc.joins]))
          (.inr rfl)) ?_
      exact .inr (.inl (.inr ⟨c, by simp [ClientPc.joins]⟩))
  | _ hpc =>
      refine hlives.move (fun _ => id) (joining_update_iff ?_)
      simp [hpc, ClientPc.joins]

theorem WorkerStep.lives (h : WorkerStep σ σ') (hlives : Lives σ._sinks σ.sinks σ.pc σ.clients) :
    Lives σ'._sinks σ'.sinks σ'.pc σ'.clients := by
  cases h with
  | @bgSave msg i s hpc | @bgFatal msg i s hpc =>
      refine (hlives.update (fun _ _ => Iff.rfl) (fun _ _ => Iff.rfl) ?_).move (fun _ => id)
        (joining_pc_iff (by simp [hpc, WorkerPc.joins]) _)
      exact hlives s
  | addSink hpc =>
      refine hlives.move (fun s hs => List.mem_append_left _ hs) (joining_pc_iff ?_ _)
      simp [State.ret, hpc, WorkerPc.joins]
  | clearShared hpc hsinks hstrong => exact hlives.tail hsinks (strong_iff.mp hstrong)
  | @clearLast fatal s rest hpc hsinks hstrong =>
      refine hlives.update (fun s' hs => by simp [hsinks, hs])
        (fun s' hs => joining_pc_of_ne hs (.inl (by simp [hpc, WorkerPc.joins])) (.inr rfl) _) ?_
      exact .inr (.inl (.inl rfl))
  | @join s fatal hpc hfinished =>
      refine hlives.update (fun _ _ => Iff.rfl)
        (fun s' hs => joining_pc_of_ne hs (.inr (by simp [hpc, WorkerPc.joins])) (.inl rfl) _) ?_
      exact .inr (.inr rfl)
  | exit | exitWithDefaultSignalHandler => exact hlives
  | @pop bg c hpc hpop hfunc =>
      refine hlives.move (fun _ => id) (joining_pc_iff ?_ _)
      rw [hpc]
      cases c with
      | work task => cases task <;> rfl
      | done => rfl
  | _ hpc =>
      refine hlives.move (fun _ => id) (joining_pc_iff ?_ _)
      simp [State.ret, hpc, WorkerPc.joins]

theorem SinkStep.lives {s : SinkId} (h : SinkStep s σ σ')
    (hlives : Lives σ._sinks σ.sinks σ.pc σ.clients) :
    Lives σ'._sinks σ'.sinks σ'.pc σ'.clients := by
  cases h with
  | turn hcreated hturn | value hcreated hturn =>
      refine hlives.update (fun _ _ => Iff.rfl) (fun _ _ => Iff.rfl) ?_
      rw [(Sink.turn_frame hturn).2.1]
      exact (hlives s).imp_right fun hs => hs.imp_right fun hreal =>
        ((touched_turn (s := s) hturn).gone hcreated).mpr (.inl hreal)

theorem lives {Ok : State T R → Action → Prop} (h : (logWorker T R).ReachableBy Ok σ) :
    Lives σ._sinks σ.sinks σ.pc σ.clients := by
  refine h.invariant (P := fun σ => Lives σ._sinks σ.sinks σ.pc σ.clients) ?_
    fun σ a σ' _ _ hlives hs => ?_
  · rintro _ ⟨programs, active, rfl⟩ s
    exact .inr (.inr rfl)
  · rcases (step_cases hs).2.data with ⟨c, fresh, hs⟩ | hs | ⟨s, hs⟩ | hs
    · exact hs.lives hlives
    · exact hs.lives hlives
    · exact hs.lives hlives
    · cases hs with
      | keep | send => exact hlives

/-- A sink that nobody holds or waits for has been destroyed. -/
theorem real_sink_eq_none {Ok : State T R → Action → Prop}
    (h : (logWorker T R).ReachableBy Ok σ) {s : SinkId}
    (hstrong : ¬ Strong σ._sinks σ.sinks s) (hjoining : ¬ Joining σ.pc σ.clients s) :
    (σ.sinks s)._real_sink = none :=
  ((lives h s).resolve_left hstrong).resolve_left hjoining

end

/-! ## New sinks -/

/-- The client is at `addSink`, and makes the sink next. -/
def State.makes (σ : State T R) (c : ClientId) : Bool :=
  match (σ.clients c).pc, (σ.clients c).program with
  | .idle, .addSink _ _ :: _ => true
  | _, _ => false

/-- Nobody else makes a sink. -/
theorem Step.created_eq_of_makes {σ σ' : State T R} {a : Action} (h : Step σ a σ') {s : SinkId}
    (hmakes : ∀ c, a = .client c s → σ.makes c = false) :
    (σ'.sinks s).created = (σ.sinks s).created := by
  by_cases ha : ∃ c, a = .client c s
  · obtain ⟨c, rfl⟩ := ha
    have update {s' : SinkId} {k : Sink T R} (hk : k.created = (σ.sinks s').created) :
        (Function.update σ.sinks s' k s).created = (σ.sinks s).created := by
      by_cases hs : s = s'
      · subst hs
        simpa using hk
      · simp [hs]
    cases h with
    | client _ hs =>
        cases hs with
        | make hpc hprogram => simpa [State.makes, hpc, hprogram] using hmakes c rfl
        | lock | async | releaseLast | destroyLast => exact update rfl
        | releaseShared =>
            rw [sinks_release]
            exact update rfl
        | join =>
            rw [sinks_destroySink_release]
            exact update rfl
        | _ => rfl
  · exact h.created_eq fun c hc => ha ⟨c, hc⟩

end G3log
