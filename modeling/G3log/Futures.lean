import G3log.FatalEvents
import G3log.SinkHandle

/-!
# What a caller gets from a sink handle

Every call has run exactly once when its future has a value, and a future never loses
it. If no thread that can go on is neglected for ever, each call comes to its end: the
client sends the function that it has locked the sink for, and the sink's thread works off
its queue as far as that, whatever else is sent to the sink in the meantime.

## Main definitions

* `Active.rank` -- how far a thread is from a callback in its queue.
* `Fair`, `eventually_ran` -- runs that neglect no thread, and the calls in them.
* `Outcome`, `CallsOnce` -- how each call comes out.
* `calls_run_once` -- all of it, in every reachable state.
-/

namespace G3log

open Transition

variable {T R : Type}

/-- Only the thread of a sink takes callbacks from its queue; anybody may add some. -/
theorem Step.sink_bg {σ σ' : State T R} {a : Action} (hs : Step σ a σ') (ho : Owned σ)
    {s : SinkId} (ha : a ≠ .sink s) :
    (σ'.sinks s)._bg.executed = (σ.sinks s)._bg.executed ∧
      (σ'.sinks s)._bg.func = (σ.sinks s)._bg.func ∧
        (σ.sinks s)._bg.sent <+: (σ'.sinks s)._bg.sent := by
  have update {s' : SinkId} {k : Sink T R} (hk : k._bg.executed = (σ.sinks s')._bg.executed ∧
      k._bg.func = (σ.sinks s')._bg.func ∧ (σ.sinks s')._bg.sent <+: k._bg.sent) :
      (Function.update σ.sinks s' k s)._bg.executed = (σ.sinks s)._bg.executed ∧
        (Function.update σ.sinks s' k s)._bg.func = (σ.sinks s)._bg.func ∧
          (σ.sinks s)._bg.sent <+: (Function.update σ.sinks s' k s)._bg.sent := by
    by_cases hs : s = s'
    · subst hs; simpa using hk
    · simp [hs]
  have send {s' : SinkId} (c : Callback (SinkTask T R)) :
      (σ.sinks s')._bg.sent <+: ((σ.sinks s')._bg.send c).sent := by simp
  cases hs with
  | @client c fresh _ _ hs =>
      cases hs with
      | make hpc hprogram hfresh =>
          refine update ?_
          rw [ho.held.unmade fresh hfresh]
          exact ⟨rfl, rfl, List.prefix_rfl⟩
      | lock => exact update ⟨rfl, rfl, List.prefix_rfl⟩
      | async | releaseLast | destroyLast => exact update ⟨rfl, rfl, send _⟩
      | releaseShared => rw [sinks_release]; exact update ⟨rfl, rfl, List.prefix_rfl⟩
      | join => rw [sinks_destroySink_release]; exact update ⟨rfl, rfl, List.prefix_rfl⟩
      | _ => exact ⟨rfl, rfl, List.prefix_rfl⟩
  | worker _ hs =>
      cases hs with
      | bgSave | bgFatal | clearLast => exact update ⟨rfl, rfl, send _⟩
      | join => exact update ⟨rfl, rfl, List.prefix_rfl⟩
      | _ => exact ⟨rfl, rfl, List.prefix_rfl⟩
  | @sink s' _ _ hs =>
      have hs' : s ≠ s' := by
        rintro rfl
        exact ha rfl
      cases hs <;> simp [hs']
  | fatal hs => cases hs <;> exact ⟨rfl, rfl, List.prefix_rfl⟩
  | signal | raise | fault => exact ⟨rfl, rfl, List.prefix_rfl⟩

/-- Only to sinks that have been made is anything sent. -/
theorem Owned.created_of_called {σ : State T R} (h : Owned σ) {s : SinkId} {id : CallId}
    (hcalled : id ∈ (σ.sinks s).called) : (σ.sinks s).created = true := by
  by_contra hc
  rw [h.held.unmade s (Bool.eq_false_of_not_eq_true hc)] at hcalled
  simp [Sink.called, Sink.unmade] at hcalled

/-- There is a result in the future, or an error. -/
def Future.ready : Future R → Bool
  | .unset | .pending => false
  | _ => true

namespace Calls
variable {programs : ClientId → List (Op T R)} {σ σ' : State T R}

/-- A call that has run has its result. -/
theorem value_of_ran (h : Calls programs σ) (ho : Owned σ) {s : SinkId} {id : CallId}
    (hran : id ∈ (σ.sinks s).ran) : ∃ r, σ.futures id = .value r := by
  have hcreated := ho.created_of_called ((σ.sinks s).ran_isPrefix.subset hran)
  obtain ⟨t₀, -, hout⟩ := h.results s hcreated
  rw [Sink.ran, ← SinkTask.runAll_ids (σ.sinks s)._default_log_call t₀] at hran
  obtain ⟨⟨id', r⟩, hmem, rfl⟩ := List.mem_map.mp hran
  exact ⟨r, hout _ hmem⟩

/-- A call that is sent but has not run is pending. -/
theorem pending_of_called (h : Calls programs σ) {s : SinkId} {id : CallId}
    (hcalled : id ∈ (σ.sinks s).called) (hran : id ∉ (σ.sinks s).ran) :
    σ.futures id = .pending := by
  obtain ⟨s', func, hget, hmade⟩ := h.made id (h.lt_calls hcalled)
  cases hmade with
  | gone _ hnot => exact absurd hcalled (hnot s)
  | locked hpc => exact absurd hcalled ((h.locked _ s' id func hpc).2.2.2.2 s)
  | sent hmem hpending =>
      obtain rfl := h.sink_unique hcalled (mem_called.mpr ⟨func, hmem⟩)
      exact hpending hran

/-- No promise is broken. -/
theorem not_broken (h : Calls programs σ) (ho : Owned σ) (id : CallId) :
    σ.futures id ≠ .broken_promise := by
  by_cases hid : id.n < (σ.clients id.client).calls
  · obtain ⟨s, func, -, hmade⟩ := h.made id hid
    cases hmade with
    | gone hfuture => simp [hfuture]
    | locked hpc => simp [(h.locked _ s id func hpc).2.2.2.1]
    | sent hmem hpending =>
        by_cases hran : id ∈ (σ.sinks s).ran
        · obtain ⟨r, hr⟩ := h.value_of_ran ho hran
          simp [hr]
        · simp [hpending hran]
  · simp [(h.fresh id (Nat.le_of_not_lt hid)).1]

/-- A future that is ready stays as it is. -/
theorem ready_step (h : Calls programs σ) (ho : Owned σ) {a : Action} (hs : Step σ a σ')
    {id : CallId} (hready : (σ.futures id).ready = true) : σ'.futures id = σ.futures id := by
  have hjoin {s : SinkId} (hjoining : Joining σ.pc σ.clients s)
      (hfinished : (σ.sinks s)._bg.finished = true) :
      (σ.destroySink s).futures id = σ.futures id := by
    rw [futures_destroySink ho hjoining hfinished]
  have hother {id' : CallId} {f : Future R} (hid' : (σ.futures id').ready = false) :
      Function.update σ.futures id' f id = σ.futures id := by
    refine Function.update_of_ne ?_ _ _
    rintro rfl
    simp [hid'] at hready
  rcases hs.data with ⟨c, fresh, hs⟩ | hs | ⟨s, hs⟩ | hs
  · cases hs with
    | gone => exact hother (by rw [(h.fresh ⟨c, (σ.clients c).calls⟩ le_rfl).1]; rfl)
    | async hpc => exact hother (by rw [(h.locked _ _ _ _ hpc).2.2.2.1]; rfl)
    | join hpc hfinished => exact hjoin (.inr ⟨c, by rw [hpc]; rfl⟩) hfinished
    | _ => rfl
  · cases hs with
    | join hpc hfinished => exact hjoin (.inl (by rw [hpc]; rfl)) hfinished
    | _ => rfl
  · cases hs with
    | turn => rfl
    | value hcreated hturn =>
        obtain ⟨hcalled, hran, -⟩ := h.turn_call hturn
        exact hother (by rw [h.pending_of_called (mem_called.mpr hcalled) hran]; rfl)
  · cases hs with
    | keep | send => rfl

end Calls

/-- A call runs on the thread of its sink, on the real sink, and its future gets the
result. -/
theorem Step.runs_on_sink {σ σ' : State T R} {a : Action} (hs : Step σ a σ') (ho : Owned σ)
    {s : SinkId} {id : CallId} (hbefore : id ∉ (σ.sinks s).ran) (hafter : id ∈ (σ'.sinks s).ran) :
    a = .sink s ∧ ∃ func t, .work (.call id func) ∈ (σ.sinks s)._bg.sent ∧
      (σ.sinks s)._real_sink = some t ∧ (σ'.sinks s)._real_sink = some (func t).1 ∧
        σ'.futures id = .value (func t).2 := by
  obtain rfl : a = .sink s := by
    by_contra ha
    rw [Sink.ran, (hs.sink_bg ho ha).1] at hafter
    exact hbefore hafter
  refine ⟨rfl, ?_⟩
  have hturn : ∃ k out, (σ.sinks s).turn = some (k, out) ∧ σ'.sinks s = k ∧
      ∀ r, out = some (id, r) → σ'.futures id = .value r := by
    cases hs with
    | sink _ hs =>
        cases hs with
        | @turn k _ hturn => exact ⟨k, none, hturn, by simp, by simp⟩
        | @value k id' r _ hturn =>
            refine ⟨k, some (id', r), hturn, by simp, fun r' heq => ?_⟩
            obtain ⟨rfl, rfl⟩ := Prod.mk.inj (Option.some.inj heq)
            simp
  obtain ⟨k, out, hturn, hk, hfuture⟩ := hturn
  rw [hk] at hafter ⊢
  rcases Sink.turn_cases hturn with
    ⟨hex, -, -⟩ | ⟨hex, -, -⟩ | ⟨task, t, hfunc, ht, hex, hreal, hout⟩
  · rw [Sink.ran, hex] at hafter
    exact absurd hafter hbefore
  · rw [Sink.ran, hex, Active.workOf_append, Active.workOf_done, List.append_nil] at hafter
    exact absurd hafter hbefore
  · rw [Sink.ran, hex, Active.workOf_append, callsOf_append, List.mem_append] at hafter
    have hnew := hafter.resolve_left hbefore
    cases task with
    | log msg => simp at hnew
    | call id' func =>
        obtain rfl : id = id' := by simpa using hnew
        exact ⟨func, t, Active.mem_sent_of_func hfunc, ht, hreal, hfuture _ hout⟩

/-! ## The queue is worked off -/

namespace Active
variable {α : Type*}

/-- How far the thread is from the first callback of a kind: for each one before it the
turn that takes it from the queue, and the one that calls it. -/
def rank (p : Callback α → Bool) (a : Active α) : ℕ :=
  2 * (a.sent.findIdx p - a.executed.length) + if a.func.isNone then 1 else 0

/-- Whoever sends something to the object does not get in front. -/
theorem rank_of_sent {p : Callback α → Bool} {a a' : Active α}
    (hexecuted : a'.executed = a.executed) (hfunc : a'.func = a.func) (hsent : a.sent <+: a'.sent)
    (hmem : ∃ c ∈ a.sent, p c = true) : a'.rank p = a.rank p := by
  have hidx := hsent.findIdx_eq_of_findIdx_lt_length (List.findIdx_lt_length.mpr hmem)
  rw [rank, rank, hexecuted, hfunc, hidx]

theorem rank_pop {p : Callback α → Bool} {a a' : Active α} (h : a.pop = some a') :
    a'.rank p < a.rank p := by
  have hsent := sent_pop h
  obtain ⟨c, rest, hfunc, -, -, rfl⟩ := pop_eq_some h
  simp [rank, hsent, hfunc]

/-- A callback returns that is not of the kind. -/
theorem rank_ret {p : Callback α → Bool} {a : Active α} {c : Callback α} (hfunc : a.func = some c)
    (hnot : ∀ d ∈ a.ret.executed, p d = false) : a.ret.rank p < a.rank p := by
  have hexecuted : a.ret.executed = a.executed ++ [c] := by simp [ret, hfunc]
  have hidx : a.executed.length + 1 ≤ a.sent.findIdx p := by
    have hle := a.ret.executed_isPrefix.findIdx_le (p := p)
    rw [List.findIdx_eq_length_of_false hnot, sent_ret] at hle
    simpa [hexecuted] using hle
  simp only [rank, sent_ret, hexecuted, hfunc, List.length_append, List.length_singleton]
  simp only [ret, Option.isNone_none, Option.isNone_some, if_true, Bool.false_eq_true, if_false]
  omega

end Active

/-- A turn of a sink's thread is a step of its active object. -/
theorem Sink.bg_turn {k k' : Sink T R} {out : Option (CallId × R)} (h : k.turn = some (k', out)) :
    k._bg.exit = some k'._bg ∨ k._bg.pop = some k'._bg ∨
      ∃ c, k._bg.func = some c ∧ k'._bg = k._bg.ret := by
  unfold turn at h
  split at h
  · split at h
    all_goals
      obtain ⟨bg, hbg, heq⟩ := Option.map_eq_some_iff.mp h
      obtain ⟨rfl, -⟩ := Prod.mk.inj heq
    · exact .inl hbg
    · exact .inr (.inl hbg)
  · next hfunc =>
      obtain ⟨rfl, -⟩ := Prod.mk.inj (Option.some.inj h)
      exact .inr (.inr ⟨_, hfunc, rfl⟩)
  · next hfunc =>
      obtain ⟨t, -, heq⟩ := Option.map_eq_some_iff.mp h
      obtain ⟨rfl, -⟩ := Prod.mk.inj heq
      exact .inr (.inr ⟨_, hfunc, rfl⟩)

/-- The callback of a call. -/
def isCall (id : CallId) : Callback (SinkTask T R) → Bool
  | .work (.call id' _) => decide (id' = id)
  | _ => false

theorem exists_isCall_iff {cs : List (Callback (SinkTask T R))} {id : CallId} :
    (∃ c ∈ cs, isCall id c = true) ↔ id ∈ callsOf (workOf cs) := by
  rw [mem_callsOf]
  constructor
  · rintro ⟨c, hc, hcall⟩
    cases c with
    | work task =>
        cases task with
        | log msg => simp [isCall] at hcall
        | call id' func =>
            obtain rfl : id' = id := by simpa [isCall] using hcall
            exact ⟨func, hc⟩
    | done => simp [isCall] at hcall
  · rintro ⟨func, hc⟩
    exact ⟨_, hc, by simp [isCall]⟩

/-- Once the thread of a sink is through with its loop, it has run everything. -/
theorem Owned.executed_of_done {σ : State T R} (h : Owned σ) {s : SinkId}
    (hdone : (σ.sinks s)._bg.done_ = true) : (σ.sinks s)._bg.executed = (σ.sinks s)._bg.sent := by
  have hlife := h.life s
  have hmem : .done ∈ (σ.sinks s)._bg.sent :=
    (σ.sinks s)._bg.executed_isPrefix.subset (hlife.sound.done_iff.mp hdone)
  have hopen : ¬ ((σ.sinks s).created = false ∨ Strong σ._sinks σ.sinks s) :=
    fun hopen => hlife.still_open hopen hmem
  obtain ⟨hcreated, hnot⟩ := not_or.mp hopen
  obtain ⟨hclosed, -⟩ := hlife.closed (by simpa using hcreated) hnot
  exact (hclosed.drained hlife.sound hdone).1

/-- While a call waits in the queue, the thread of the sink is in its loop. -/
theorem Owned.done_of_waiting {σ : State T R} (h : Owned σ) {s : SinkId} {id : CallId}
    (hcalled : id ∈ (σ.sinks s).called) (hran : id ∉ (σ.sinks s).ran) :
    (σ.sinks s)._bg.done_ = false := by
  by_contra hdone
  rw [Sink.ran, h.executed_of_done (Bool.eq_true_of_not_eq_false hdone)] at hran
  exact hran hcalled

/-- What is in the queue of a sink stays there until it has run, whoever moves; and with
each of its turns the thread of the sink gets closer to it. -/
theorem Step.rank_le {σ σ' : State T R} {a : Action} (hs : Step σ a σ') (ho : Owned σ)
    {s : SinkId} {id : CallId} (hcalled : id ∈ (σ.sinks s).called)
    (hran : id ∉ (σ'.sinks s).ran) :
    id ∈ (σ'.sinks s).called ∧
      (σ'.sinks s)._bg.rank (isCall id) ≤ (σ.sinks s)._bg.rank (isCall id) ∧
        (a = .sink s →
          (σ'.sinks s)._bg.rank (isCall id) < (σ.sinks s)._bg.rank (isCall id)) := by
  by_cases ha : a = .sink s
  · subst ha
    obtain ⟨k, out, hturn, hk⟩ : ∃ k out, (σ.sinks s).turn = some (k, out) ∧ σ'.sinks s = k := by
      cases hs with
      | sink _ hs =>
          cases hs with
          | turn _ hturn | value _ hturn => exact ⟨_, _, hturn, by simp⟩
    rw [hk] at hran ⊢
    have hlt : k._bg.rank (isCall id) < (σ.sinks s)._bg.rank (isCall id) := by
      rcases Sink.bg_turn hturn with hexit | hpop | ⟨c, hfunc, hret⟩
      · obtain ⟨rest, hrest⟩ := Sink.executed_turn hturn
        have hnot : id ∉ (σ.sinks s).ran := by
          intro hmem
          simp only [Sink.ran, ← hrest, Active.workOf_append, callsOf_append] at hran hmem
          simp [hmem] at hran
        have hdone := ho.done_of_waiting hcalled hnot
        simp [(Active.exit_eq_some hexit).2.1] at hdone
      · exact Active.rank_pop hpop
      · rw [hret]
        refine Active.rank_ret hfunc fun d hd => ?_
        by_contra hd'
        refine hran (exists_isCall_iff.mp ⟨d, ?_, Bool.eq_true_of_not_eq_false hd'⟩)
        rwa [hret]
    have hsent := (Sink.turn_frame hturn).2.2.2
    exact ⟨by rwa [Sink.called, hsent], hlt.le, fun _ => hlt⟩
  · obtain ⟨hexecuted, hfunc, hsent⟩ := hs.sink_bg ho ha
    have heq := Active.rank_of_sent hexecuted hfunc hsent (exists_isCall_iff.mpr hcalled)
    refine ⟨?_, heq.le, fun ha' => absurd ha' ha⟩
    obtain ⟨rest, hrest⟩ := hsent
    rw [Sink.called, ← hrest, Active.workOf_append, callsOf_append]
    exact List.mem_append_left _ hcalled

/-- The thread of a sink can go on while a call waits in its queue. -/
theorem isSome_sinkStep_of_waiting {σ : State T R} (ho : Owned σ) {s : SinkId} {id : CallId}
    (hcalled : id ∈ (σ.sinks s).called) (hran : id ∉ (σ.sinks s).ran) :
    (σ.sinkStep s).isSome := by
  have hlife := ho.life s
  have hdone := ho.done_of_waiting hcalled hran
  have hcreated := ho.created_of_called hcalled
  have hrunning : (σ.sinks s)._bg.finished = false := by
    by_contra hfinished
    simp [hlife.sound.done_of_finished (Bool.eq_true_of_not_eq_false hfinished)] at hdone
  have hturn : (σ.sinks s).turn.isSome := by
    refine hlife.isSome_turn hcreated hrunning fun hfunc _ hnil => hran ?_
    rwa [Sink.called, Active.sent, hfunc, hnil, Option.toList_none, List.append_nil,
      List.append_nil] at hcalled
  simpa [State.sinkStep, hcreated] using hturn

/-- A thread that can go on by itself from some time on does so. -/
def Fair {Ok : State T R → Action → Prop} (E : (logWorker T R).Execution Ok) : Prop :=
  ∀ t : Thread, E.WeaklyFair fun a => a.ofThread = true ∧ a.thread = t

/-- The process has ended, or the thread has a fatal event of its own. -/
def State.interrupted (σ : State T R) (t : Thread) : Prop :=
  σ.exited = true ∨ σ.fatal t ≠ .none

theorem FatalStep.ne_none {σ σ' : State T R} {t : Thread} (hs : FatalStep t σ σ') :
    σ.fatal t ≠ .none := by
  cases hs <;> simp_all

/-- Without a fatal event, the thread of a sink only takes turns. -/
theorem Step.eq_sink {σ σ' : State T R} {a : Action} (hs : Step σ a σ') {s : SinkId}
    (ha : a.ofThread = true) (hthread : a.thread = .sink s) (hfatal : σ.fatal (.sink s) = .none) :
    a = .sink s := by
  cases hs with
  | client | worker => simp [Action.thread] at hthread
  | sink => rw [Thread.sink.inj hthread]
  | fatal hs =>
      obtain rfl := hthread
      exact absurd hfatal hs.ne_none
  | signal | raise => simp [Action.ofThread] at ha
  | fault hnull =>
      obtain rfl := hthread
      simp [State.derefsNull, hfatal] at hnull

/-- Without a fatal event, a client that has locked a sink sends its function next. -/
theorem Step.of_async {σ σ' : State T R} {a : Action} (hs : Step σ a σ') {c : ClientId}
    {s : SinkId} {id : CallId} {func : T → T × R} (hpc : (σ.clients c).pc = .async s id func)
    (ha : a.ofThread = true) (hthread : a.thread = .client c)
    (hfatal : σ.fatal (.client c) = .none) : id ∈ (σ'.sinks s).called := by
  cases hs with
  | client _ hs =>
      obtain rfl := Thread.client.inj hthread
      cases hs with
      | async hpc' =>
          obtain ⟨rfl, rfl, rfl⟩ := ClientPc.async.inj (hpc'.symm.trans hpc)
          simp
      | _ hpc' => simp [hpc'] at hpc
  | worker | sink => simp [Action.thread] at hthread
  | fatal hs =>
      obtain rfl := hthread
      exact absurd hfatal hs.ne_none
  | signal | raise => simp [Action.ofThread] at ha
  | fault hnull =>
      obtain rfl := hthread
      simp [State.derefsNull, hfatal, hpc] at hnull

namespace Fair
variable {Ok : State T R → Action → Prop} {E : (logWorker T R).Execution Ok}

/-- A client that has locked a sink sends its function. -/
theorem eventually_called (hfair : Fair E) {n : ℕ} {s : SinkId} {id : CallId} {func : T → T × R}
    (hpc : ((E.state n).clients id.client).pc = .async s id func) :
    ∃ k, n ≤ k ∧ (id ∈ ((E.state k).sinks s).called ∨
      (E.state k).interrupted (.client id.client)) := by
  by_cases hn : (E.state n).interrupted (.client id.client)
  · exact ⟨n, le_rfl, .inr hn⟩
  refine System.Execution.eventually_of_measure (hfair (.client id.client))
    (P := fun σ => (σ.clients id.client).pc = .async s id func ∧
      ¬ σ.interrupted (.client id.client))
    (Q := fun σ => id ∈ (σ.sinks s).called ∨ σ.interrupted (.client id.client))
    (fun _ => 0) ?_ ?_ ?_ n ⟨hpc, hn⟩
  · rintro σ a σ' - ⟨hpc, hfree⟩ hs
    by_cases hq : id ∈ (σ'.sinks s).called ∨ σ'.interrupted (.client id.client)
    · exact .inr hq
    · obtain ⟨hnot, hfree'⟩ := not_or.mp hq
      have hs := (step_cases hs).2
      have hmover : a.mover ≠ some id.client := by
        intro hmover
        cases a with
        | client c fresh =>
            obtain rfl : c = id.client := Option.some.inj hmover
            exact hnot (hs.of_async hpc rfl rfl (not_not.mp (not_or.mp hfree).2))
        | _ => simp [Action.mover] at hmover
      refine .inl ⟨⟨?_, hfree'⟩, le_rfl⟩
      rwa [hs.clients_eq hmover]
  · rintro σ a σ' - ⟨hpc, hfree⟩ ⟨ha, hthread⟩ hs
    have hfatal := not_not.mp (not_or.mp hfree).2
    exact .inr (.inl ((step_cases hs).2.of_async hpc ha hthread hfatal))
  · rintro σ ⟨hpc, hfree⟩
    obtain ⟨hexited, hfatal⟩ := not_or.mp hfree
    refine ⟨.client id.client 0, ⟨rfl, rfl⟩, ?_⟩
    simp only [ne_eq, not_not] at hfatal
    simp [logWorker, step, hexited, hfatal, State.clientStep, hpc]

/-- The thread of a sink runs every function that is sent to it. -/
theorem eventually_ran (hfair : Fair E) {n : ℕ} {s : SinkId} {id : CallId}
    (hcalled : id ∈ ((E.state n).sinks s).called) :
    ∃ k, n ≤ k ∧ (id ∈ ((E.state k).sinks s).ran ∨ (E.state k).interrupted (.sink s)) := by
  by_cases hn : id ∈ ((E.state n).sinks s).ran ∨ (E.state n).interrupted (.sink s)
  · exact ⟨n, le_rfl, hn⟩
  refine System.Execution.eventually_of_measure (hfair (.sink s))
    (P := fun σ => Owned σ ∧ id ∈ (σ.sinks s).called ∧
      ¬ (id ∈ (σ.sinks s).ran ∨ σ.interrupted (.sink s)))
    (Q := fun σ => id ∈ (σ.sinks s).ran ∨ σ.interrupted (.sink s))
    (fun σ => (σ.sinks s)._bg.rank (isCall id)) ?_ ?_ ?_ n ⟨owned (E.reachableBy n), hcalled, hn⟩
  · rintro σ a σ' - ⟨ho, hσ, -⟩ hs
    by_cases hq : id ∈ (σ'.sinks s).ran ∨ σ'.interrupted (.sink s)
    · exact .inr hq
    · have hs := (step_cases hs).2
      obtain ⟨hσ', hle, -⟩ := hs.rank_le ho hσ (not_or.mp hq).1
      exact .inl ⟨⟨ho.step hs, hσ', hq⟩, hle⟩
  · rintro σ a σ' - ⟨ho, hσ, hnot⟩ ⟨ha, hthread⟩ hs
    by_cases hq : id ∈ (σ'.sinks s).ran ∨ σ'.interrupted (.sink s)
    · exact .inr hq
    · have hs := (step_cases hs).2
      have hfatal := not_not.mp (not_or.mp (not_or.mp hnot).2).2
      exact .inl ((hs.rank_le ho hσ (not_or.mp hq).1).2.2 (hs.eq_sink ha hthread hfatal))
  · rintro σ ⟨ho, hσ, hnot⟩
    obtain ⟨hran, hfree⟩ := not_or.mp hnot
    obtain ⟨hexited, hfatal⟩ := not_or.mp hfree
    refine ⟨.sink s, ⟨rfl, rfl⟩, ?_⟩
    simp only [ne_eq, not_not] at hfatal
    simpa [logWorker, step, hexited, hfatal] using isSome_sinkStep_of_waiting ho hσ hran

end Fair

/-! ## All calls -/

/-- How a call through a handle has come out so far. -/
inductive Outcome (σ : State T R) (id : CallId) (s : SinkId) (func : T → T × R) : Prop
  /-- The sink was gone: the future says so, and nothing is sent. -/
  | refused (hstrong : σ.strong s = false) (hfuture : σ.futures id = .bad_weak_ptr)
      (hcalled : id ∉ (σ.sinks s).called)
  /-- The sink is locked, and the function is sent next. -/
  | locked (hpc : (σ.clients id.client).pc = .async s id func) (hstrong : σ.strong s = true)
      (hfuture : σ.futures id = .unset) (hcalled : id ∉ (σ.sinks s).called)
  /-- The function waits in the queue, and the real sink is there. -/
  | waiting (hsent : .work (.call id func) ∈ (σ.sinks s)._bg.sent)
      (honce : (σ.sinks s).called.count id = 1) (hran : id ∉ (σ.sinks s).ran)
      (hfuture : σ.futures id = .pending) (hreal : (σ.sinks s)._real_sink.isSome = true)
  /-- The function has run, once. -/
  | run (hsent : .work (.call id func) ∈ (σ.sinks s)._bg.sent)
      (honce : (σ.sinks s).ran.count id = 1) (r : R) (hfuture : σ.futures id = .value r)

/-- What holds of the calls of the clients' programs. -/
structure CallsOnce (programs : ClientId → List (Op T R)) (σ : State T R) : Prop where
  /-- Each call made comes out in one of these ways, at its own sink only. -/
  outcome : ∀ id, id.n < (σ.clients id.client).calls →
    ∃ s func, (handleCalls (programs id.client))[id.n]? = some (s, func) ∧
      Outcome σ id s func ∧ ∀ s', s' ≠ s → id ∉ (σ.sinks s').called
  /-- Nothing but the calls made is sent to a sink. -/
  made : ∀ s id, id ∈ (σ.sinks s).called → id.n < (σ.clients id.client).calls
  not_broken : ∀ id, σ.futures id ≠ .broken_promise
  /-- A result is there to stay. -/
  kept : ∀ σ', (logWorker T R).LeadsBy (fun _ _ => True) σ σ' → ∀ id,
    (σ.futures id).ready = true → σ'.futures id = σ.futures id
  /-- The values are what the functions have returned, run one after the other. -/
  results : ∀ s, (σ.sinks s).created = true → (σ.sinks s).Results σ.futures
  /-- A client's calls run in their order. -/
  order : ∀ s c, ((σ.sinks s).ran.filter (·.client = c)).Pairwise (·.n < ·.n)
  /-- A function runs in a turn of the sink's thread, on the real sink. -/
  thread : ∀ a σ' s id, step σ a = some σ' → id ∉ (σ.sinks s).ran → id ∈ (σ'.sinks s).ran →
    a = .sink s ∧ ∃ func t, .work (.call id func) ∈ (σ.sinks s)._bg.sent ∧
      (σ.sinks s)._real_sink = some t ∧ (σ'.sinks s)._real_sink = some (func t).1 ∧
        σ'.futures id = .value (func t).2
  /-- The real sink is destroyed after all of them. -/
  destroyed : ∀ s, (σ.sinks s).created = true → (σ.sinks s)._real_sink = none →
    (σ.sinks s).ran = (σ.sinks s).called
  /-- A call that is under way comes to its end, unless its client or its own sink is stopped. -/
  ends : ∀ E : (logWorker T R).Execution fun _ _ => True, Fair E → ∀ n, E.state n = σ →
    ∀ id, id.n < (σ.clients id.client).calls → (σ.futures id).ready = false →
      ∃ s func, (handleCalls (programs id.client))[id.n]? = some (s, func) ∧ ∃ k, n ≤ k ∧
        (id ∈ ((E.state k).sinks s).ran ∧ (∃ r, (E.state k).futures id = .value r) ∨
          (E.state k).interrupted (.client id.client) ∨ (E.state k).interrupted (.sink s))

/-- The real sink goes when everything has run. -/
theorem Owned.ran_of_destroyed {σ : State T R} (h : Owned σ) {s : SinkId}
    (hcreated : (σ.sinks s).created = true) (hreal : (σ.sinks s)._real_sink = none) :
    (σ.sinks s).ran = (σ.sinks s).called := by
  have hlife := h.life s
  have hfinished := (hlife.real hcreated).resolve_left (by simp [hreal])
  rw [Sink.ran, h.executed_of_done (hlife.sound.done_of_finished hfinished), Sink.called]

namespace Calls
variable {programs : ClientId → List (Op T R)} {σ σ' : State T R}

theorem outcome (h : Calls programs σ) (ho : Owned σ) {id : CallId}
    (hid : id.n < (σ.clients id.client).calls) :
    ∃ s func, (handleCalls (programs id.client))[id.n]? = some (s, func) ∧
      Outcome σ id s func ∧ ∀ s', s' ≠ s → id ∉ (σ.sinks s').called := by
  obtain ⟨s, func, hget, hmade⟩ := h.made id hid
  refine ⟨s, func, hget, ?_⟩
  cases hmade with
  | gone hfuture hnot hdone =>
      refine ⟨.refused ?_ hfuture (hnot s), fun s' _ => hnot s'⟩
      rw [not_strong_iff]
      exact fun hstrong => (ho.life s).still_open (.inr hstrong) hdone
  | locked hpc =>
      obtain ⟨-, -, -, hunset, hnot⟩ := h.locked _ s id func hpc
      have hstrong := strong_iff.mpr (ho.strong_of_holds (s := s) (by rw [hpc]; rfl))
      exact ⟨.locked hpc hstrong hunset (hnot s), fun s' _ => hnot s'⟩
  | sent hmem hpending =>
      have hcalled : id ∈ (σ.sinks s).called := mem_called.mpr ⟨func, hmem⟩
      refine ⟨?_, fun s' hs' hmem' => hs' (h.sink_unique hcalled hmem')⟩
      by_cases hran : id ∈ (σ.sinks s).ran
      · have hnodup := (h.nodup_called s).sublist (σ.sinks s).ran_isPrefix.sublist
        obtain ⟨r, hr⟩ := h.value_of_ran ho hran
        exact .run hmem (List.count_eq_one_of_mem hnodup hran) r hr
      · refine .waiting hmem (List.count_eq_one_of_mem (h.nodup_called s) hcalled) hran
          (hpending hran) ?_
        by_contra hreal
        refine hran ?_
        rwa [ho.ran_of_destroyed (ho.created_of_called hcalled) (by simpa using hreal)]

theorem ready_of_leads (h : Calls programs σ) (ho : Owned σ)
    (hl : (logWorker T R).LeadsBy (fun _ _ => True) σ σ') {id : CallId}
    (hready : (σ.futures id).ready = true) :
    σ'.futures id = σ.futures id := by
  have hrun : Calls programs σ' ∧ Owned σ' ∧ σ'.futures id = σ.futures id := by
    induction hl with
    | refl => exact ⟨h, ho, rfl⟩
    | step _ _ hs ih =>
        obtain ⟨h₁, ho₁, heq⟩ := ih
        have hs := (step_cases hs).2
        exact ⟨h₁.step ho₁ hs, ho₁.step hs, (h₁.ready_step ho₁ hs (by rwa [heq])).trans heq⟩
  exact hrun.2.2

end Calls

/-- Calls through handles, for any clients and fatal events: each finds the sink gone and is
never run, or it is run once, by the sink's thread and before the real sink is destroyed,
and its future gets the result. The calls of one client run in their order. -/
theorem calls_run_once {programs : ClientId → List (Op T R)} {active : Bool} {σ : State T R}
    (h : (logWorker T R).LeadsBy (fun _ _ => True) (init programs active) σ) :
    CallsOnce programs σ where
  outcome := fun id hid => (calls h).outcome (owned (reachableBy_of_leads h)) hid
  made := fun s id hid => (calls h).lt_calls hid
  not_broken := (calls h).not_broken (owned (reachableBy_of_leads h))
  kept := fun σ' hl id hready => (calls h).ready_of_leads (owned (reachableBy_of_leads h)) hl hready
  results := (calls h).results
  order := fun s c => ((calls h).order s c).sublist ((σ.sinks s).ran_isPrefix.sublist.filter _)
  thread := fun a σ' s id hs hbefore hafter =>
    (step_cases hs).2.runs_on_sink (owned (reachableBy_of_leads h)) hbefore hafter
  destroyed := fun s => (owned (reachableBy_of_leads h)).ran_of_destroyed
  ends := by
    rintro E hfair n rfl id hid hready
    obtain ⟨s, func, hget, hout, -⟩ := (calls h).outcome (owned (reachableBy_of_leads h)) hid
    refine ⟨s, func, hget, ?_⟩
    -- From the queue on it is up to the sink's thread.
    have hend {m : ℕ} (hm : n ≤ m) (hcalled : id ∈ ((E.state m).sinks s).called) :
        ∃ k, n ≤ k ∧ (id ∈ ((E.state k).sinks s).ran ∧ (∃ r, (E.state k).futures id = .value r) ∨
          (E.state k).interrupted (.client id.client) ∨ (E.state k).interrupted (.sink s)) := by
      obtain ⟨k, hk, hran | hint⟩ := hfair.eventually_ran hcalled
      · have hl := h.trans (E.leadsBy (hm.trans hk))
        have hvalue := (calls hl).value_of_ran (owned (reachableBy_of_leads hl)) hran
        exact ⟨k, hm.trans hk, .inl ⟨hran, hvalue⟩⟩
      · exact ⟨k, hm.trans hk, .inr (.inr hint)⟩
    cases hout with
    | refused _ hfuture => simp [hfuture, Future.ready] at hready
    | locked hpc =>
        obtain ⟨m, hm, hcalled | hint⟩ := hfair.eventually_called hpc
        · exact hend hm hcalled
        · exact ⟨m, hm, .inr (.inl hint)⟩
    | waiting hsent => exact hend le_rfl (Calls.mem_called.mpr ⟨func, hsent⟩)
    | run _ _ r hfuture => simp [hfuture, Future.ready] at hready

/-- A client adds a sink that counts, and asks it twice for its number. -/
def countCrew : ClientId → List (Op ℕ ℕ)
  | 1 => [.addSink 0 fun _ n => n + 1, .call 0 fun n => (n + 10, n), .call 0 fun n => (n, n)]
  | 2 => [.save greeting]
  | _ => []

/-- A message is logged between the two calls. -/
def countRun : List Action :=
  addRun ++ [.client 1 0, .client 1 0, .client 1 0, .client 2 0, .client 2 0, .worker, .worker,
    .worker, .client 1 0, .client 1 0, .client 1 0] ++ List.replicate 6 (.sink 0)

theorem calls_run_once_count : ∃ σ : State ℕ ℕ, (σ.sinks 0).ran = [⟨1, 0⟩, ⟨1, 1⟩] ∧
    σ.futures ⟨1, 0⟩ = .value 0 ∧ σ.futures ⟨1, 1⟩ = .value 11 ∧ CallsOnce countCrew σ := by
  have hrun : ((logWorker ℕ ℕ).runBy (fun _ _ => true) (init countCrew false) countRun).any
      (fun σ => decide ((σ.sinks 0).ran = [⟨1, 0⟩, ⟨1, 1⟩]) &&
        decide (σ.futures ⟨1, 0⟩ = .value 0) && decide (σ.futures ⟨1, 1⟩ = .value 11)) = true := by
    decide +kernel
  obtain ⟨σ, hσ, hp⟩ := (Option.any_eq_true _ _).mp hrun
  simp only [Bool.and_eq_true, decide_eq_true_eq] at hp
  exact ⟨σ, hp.1.1, hp.1.2, hp.2,
    calls_run_once ((System.leadsBy_of_runBy hσ).mono fun _ _ _ => trivial)⟩

end G3log
