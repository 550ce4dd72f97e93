import G3log.Flush

/-!
# Calls through sink handles

`SinkHandle::call` locks its `weak_ptr` and sends the function to the sink's thread, or
returns a future with `bad_weak_ptr`. The reference it takes keeps the sink until the
function is in the queue, and `~Sink` waits until the queue is worked off: so the
function runs exactly once or not at all, and a future is never left without a result.

## Main definitions

* `SinkTask.runAll` -- what the thread of a sink makes of its tasks, one after the other.
* `handleCalls` -- the calls in a program, the `n`-th of which gets the id `n`.
* `Calls`, `calls` -- where each call is, in every reachable state.
-/

namespace G3log

open Transition

variable {T R : Type}

/-! ## The thread of a sink -/

/-- The real sink after some tasks, and the results of the calls among them. -/
def SinkTask.runAll (default_log_call : LogMessage → T → T) (real_sink : T)
    (tasks : List (SinkTask T R)) : T × List (CallId × R) :=
  tasks.foldl (fun out task =>
    ((task.run default_log_call out.1).1, out.2 ++ (task.run default_log_call out.1).2.toList))
    (real_sink, [])

theorem SinkTask.runAll_concat (call : LogMessage → T → T) (t : T) (tasks : List (SinkTask T R))
    (task : SinkTask T R) : runAll call t (tasks ++ [task]) =
      ((task.run call (runAll call t tasks).1).1,
        (runAll call t tasks).2 ++ (task.run call (runAll call t tasks).1).2.toList) := by
  simp [runAll]

/-- Each call has one result, in the order of the calls. -/
theorem SinkTask.runAll_ids (call : LogMessage → T → T) (t : T) (tasks : List (SinkTask T R)) :
    (runAll call t tasks).2.map Prod.fst = callsOf tasks := by
  induction tasks using List.reverseRecOn with
  | nil => rfl
  | append_singleton tasks task ih =>
      rw [runAll_concat, List.map_append, ih, callsOf_append]
      cases task <;> rfl

namespace Sink

/-- A turn of the thread waits, ends with the callback of `~Sink`, or runs a task. -/
theorem turn_cases {k k' : Sink T R} {out : Option (CallId × R)} (h : k.turn = some (k', out)) :
    (k'._bg.executed = k._bg.executed ∧ k'._real_sink = k._real_sink ∧ out = none) ∨
    (k'._bg.executed = k._bg.executed ++ [.done] ∧ k'._real_sink = k._real_sink ∧ out = none) ∨
    ∃ task t, k._bg.func = some (.work task) ∧ k._real_sink = some t ∧
      k'._bg.executed = k._bg.executed ++ [.work task] ∧
      k'._real_sink = some (task.run k._default_log_call t).1 ∧
      out = (task.run k._default_log_call t).2 := by
  unfold turn at h
  split at h
  · refine .inl ?_
    split at h
    all_goals
      obtain ⟨bg, hbg, heq⟩ := Option.map_eq_some_iff.mp h
      obtain ⟨rfl, rfl⟩ := Prod.mk.inj heq
    · obtain ⟨-, -, -, rfl⟩ := Active.exit_eq_some hbg
      exact ⟨rfl, rfl, rfl⟩
    · obtain ⟨-, -, -, -, -, rfl⟩ := Active.pop_eq_some hbg
      exact ⟨rfl, rfl, rfl⟩
  · next hfunc =>
      obtain ⟨rfl, rfl⟩ := Prod.mk.inj (Option.some.inj h)
      exact .inr (.inl ⟨by simp [Active.ret, hfunc], rfl, rfl⟩)
  · next task hfunc =>
      obtain ⟨t, ht, heq⟩ := Option.map_eq_some_iff.mp h
      obtain ⟨rfl, rfl⟩ := Prod.mk.inj heq
      exact .inr (.inr ⟨task, t, hfunc, ht, by simp [Active.ret, hfunc], rfl, rfl⟩)

theorem default_log_call_turn {k k' : Sink T R} {out : Option (CallId × R)}
    (h : k.turn = some (k', out)) : k'._default_log_call = k._default_log_call := by
  unfold turn at h
  split at h
  · split at h
    all_goals
      obtain ⟨bg, -, heq⟩ := Option.map_eq_some_iff.mp h
      obtain ⟨rfl, -⟩ := Prod.mk.inj heq
      rfl
  · obtain ⟨rfl, -⟩ := Prod.mk.inj (Option.some.inj h)
    rfl
  · obtain ⟨t, -, heq⟩ := Option.map_eq_some_iff.mp h
    obtain ⟨rfl, -⟩ := Prod.mk.inj heq
    rfl

/-- Nothing has happened to the sink that matters to calls through its handles. -/
structure Keeps (k k' : Sink T R) : Prop where
  calls : ∀ id func, .work (.call id func) ∈ k'._bg.sent ↔ .work (.call id func) ∈ k._bg.sent
  called : k'.called = k.called
  done : .done ∈ k._bg.sent → .done ∈ k'._bg.sent
  executed : k'._bg.executed = k._bg.executed

theorem Keeps.refl (k : Sink T R) : k.Keeps k := ⟨fun _ _ => Iff.rfl, rfl, id, rfl⟩

theorem keeps_send (msg : LogMessage) (k : Sink T R) : k.Keeps (k.send msg) :=
  ⟨by simp [send], called_send msg k, by simp [send], rfl⟩

theorem keeps_close (k : Sink T R) {temps : Finset ClientId} :
    k.Keeps { k.close with temps := temps } :=
  ⟨by simp [close], k.called_close, by simp [close], rfl⟩

theorem keeps_of_bg {k k' : Sink T R} (h : k'._bg = k._bg) : k.Keeps k' := by
  refine ⟨?_, ?_, ?_, ?_⟩ <;> simp [called, h]

/-- Calls run in the order in which they were sent. -/
theorem ran_isPrefix (k : Sink T R) : k.ran <+: k.called := by
  obtain ⟨rest, hrest⟩ := k._bg.executed_isPrefix
  exact ⟨callsOf (workOf rest), by simp [ran, called, ← hrest]⟩

/-- The futures hold what the thread has made of the tasks it has run, from a real sink. -/
def Results (k : Sink T R) (futures : CallId → Future R) : Prop :=
  ∃ t₀, (∀ t, k._real_sink = some t →
      t = (SinkTask.runAll k._default_log_call t₀ (workOf k._bg.executed)).1) ∧
    ∀ out ∈ (SinkTask.runAll k._default_log_call t₀ (workOf k._bg.executed)).2,
      futures out.1 = .value out.2

theorem Results.congr {k k' : Sink T R} {futures futures' : CallId → Future R}
    (h : k.Results futures) (hexecuted : workOf k'._bg.executed = workOf k._bg.executed)
    (hcall : k'._default_log_call = k._default_log_call)
    (hreal : ∀ t, k'._real_sink = some t → k._real_sink = some t)
    (hfutures : ∀ id ∈ k.ran, futures' id = futures id) : k'.Results futures' := by
  obtain ⟨t₀, ht, hout⟩ := h
  refine ⟨t₀, ?_, ?_⟩
  · rw [hexecuted, hcall]
    exact fun t ht' => ht t (hreal t ht')
  · rw [hexecuted, hcall]
    intro out hmem
    rw [hfutures out.1 ?_]
    · exact hout out hmem
    · rw [ran, ← SinkTask.runAll_ids k._default_log_call t₀]
      exact List.mem_map_of_mem hmem

end Sink

/-! ## The calls of a program -/

/-- The calls through handles in a program. -/
def handleCalls (program : List (Op T R)) : List (SinkId × (T → T × R)) :=
  program.filterMap fun
    | .call s func => some (s, func)
    | _ => none

/-- About to send a function to a locked sink. -/
def ClientPc.asyncs : ClientPc T R → Bool
  | .async _ _ _ => true
  | _ => false

/-- Where a call is that has been made. -/
inductive Made (σ : State T R) (id : CallId) (s : SinkId) (func : T → T × R) : Prop
  /-- The call found the sink gone, and it is still gone. -/
  | gone (hfuture : σ.futures id = .bad_weak_ptr) (hcalled : ∀ s', id ∉ (σ.sinks s').called)
      (hdone : .done ∈ (σ.sinks s)._bg.sent)
  /-- The client holds the sink, and sends the function next. -/
  | locked (hpc : (σ.clients id.client).pc = .async s id func)
  /-- The function is sent to the sink. -/
  | sent (hcalled : .work (.call id func) ∈ (σ.sinks s)._bg.sent)
      (hpending : id ∉ (σ.sinks s).ran → σ.futures id = .pending)

/-- A call is where it was, if the step is not about it. -/
theorem Made.mono {σ σ' : State T R} {id : CallId} {s : SinkId} {func : T → T × R}
    (h : Made σ id s func) (hfutures : σ'.futures id = σ.futures id)
    (hlocked : (σ.clients id.client).pc = .async s id func →
      (σ'.clients id.client).pc = .async s id func)
    (hcalled : ∀ s', id ∈ (σ'.sinks s').called → id ∈ (σ.sinks s').called)
    (hsent : ∀ c, c ∈ (σ.sinks s)._bg.sent → (c = .done ∨ ∃ func, c = .work (.call id func)) →
      c ∈ (σ'.sinks s)._bg.sent)
    (hran : id ∈ (σ.sinks s).ran → id ∈ (σ'.sinks s).ran) : Made σ' id s func := by
  cases h with
  | gone hfuture hnot hdone =>
      exact .gone (hfutures.trans hfuture) (fun s' hs' => hnot s' (hcalled s' hs'))
        (hsent _ hdone (.inl rfl))
  | locked hpc => exact .locked (hlocked hpc)
  | sent hmem hpending =>
      exact .sent (hsent _ hmem (.inr ⟨func, rfl⟩)) fun hr =>
        hfutures.trans (hpending fun hr' => hr (hran hr'))

theorem Made.keeps {σ σ' : State T R} {id : CallId} {s : SinkId} {func : T → T × R}
    (h : Made σ id s func) (hfutures : σ'.futures id = σ.futures id)
    (hlocked : (σ.clients id.client).pc = .async s id func →
      (σ'.clients id.client).pc = .async s id func)
    (hsinks : ∀ s, (σ.sinks s).Keeps (σ'.sinks s)) : Made σ' id s func := by
  refine h.mono hfutures hlocked (fun s' => ?_) ?_ ?_
  · rw [(hsinks s').called]
    exact fun hmem => hmem
  · rintro c hc (rfl | ⟨func', rfl⟩)
    · exact (hsinks s).done hc
    · exact ((hsinks s).calls id func').mpr hc
  · rw [Sink.ran, Sink.ran, (hsinks s).executed]
    exact fun hmem => hmem

/-- The calls of the programs, each with its place on the way through the sinks. -/
structure Calls (programs : ClientId → List (Op T R)) (σ : State T R) : Prop where
  program : ∀ c, handleCalls (σ.clients c).program =
    (handleCalls (programs c)).drop (σ.clients c).calls
  locked : ∀ c s id func, (σ.clients c).pc = .async s id func →
    id.client = c ∧ id.n + 1 = (σ.clients c).calls ∧
      (handleCalls (programs c))[id.n]? = some (s, func) ∧ σ.futures id = .unset ∧
        ∀ s', id ∉ (σ.sinks s').called
  fresh : ∀ id, (σ.clients id.client).calls ≤ id.n →
    σ.futures id = .unset ∧ ∀ s, id ∉ (σ.sinks s).called
  sent : ∀ s id func, .work (.call id func) ∈ (σ.sinks s)._bg.sent →
    (handleCalls (programs id.client))[id.n]? = some (s, func)
  order : ∀ s c, ((σ.sinks s).called.filter (·.client = c)).Pairwise (·.n < ·.n)
  made : ∀ id, id.n < (σ.clients id.client).calls →
    ∃ s func, (handleCalls (programs id.client))[id.n]? = some (s, func) ∧ Made σ id s func
  results : ∀ s, (σ.sinks s).created = true → (σ.sinks s).Results σ.futures

/-- The calls among some callbacks. -/
theorem mem_callsOf {cs : List (Callback (SinkTask T R))} {id : CallId} :
    id ∈ callsOf (workOf cs) ↔ ∃ func, .work (.call id func) ∈ cs := by
  simp only [callsOf, List.mem_filterMap, Active.mem_workOf]
  constructor
  · rintro ⟨task, htask, hid⟩
    cases task with
    | log msg => simp at hid
    | call id' func =>
        obtain rfl : id' = id := by simpa using hid
        exact ⟨func, htask⟩
  · rintro ⟨func, hmem⟩
    exact ⟨_, hmem, rfl⟩

namespace Calls
variable {programs : ClientId → List (Op T R)} {σ σ' : State T R}

/-- A step that leaves the calls alone. -/
theorem frame (h : Calls programs σ)
    (hprogram : ∀ c, handleCalls (σ'.clients c).program = handleCalls (σ.clients c).program ∧
      (σ'.clients c).calls = (σ.clients c).calls)
    (hlocked : ∀ c s id func, (σ'.clients c).pc = .async s id func ↔
      (σ.clients c).pc = .async s id func)
    (hfutures : σ'.futures = σ.futures) (hsinks : ∀ s, (σ.sinks s).Keeps (σ'.sinks s))
    (hresults : ∀ s, (σ'.sinks s).created = true → (σ'.sinks s).Results σ.futures) :
    Calls programs σ' where
  program := fun c => by rw [(hprogram c).1, (hprogram c).2]; exact h.program c
  locked := by
    intro c s id func hc
    obtain ⟨hid, hn, hget, hunset, hnot⟩ := h.locked c s id func ((hlocked c s id func).mp hc)
    refine ⟨hid, by rw [(hprogram c).2]; exact hn, hget, by rw [hfutures]; exact hunset, ?_⟩
    exact fun s' => by rw [(hsinks s').called]; exact hnot s'
  fresh := by
    intro id hid
    rw [(hprogram id.client).2] at hid
    obtain ⟨hunset, hnot⟩ := h.fresh id hid
    exact ⟨by rw [hfutures]; exact hunset, fun s => by rw [(hsinks s).called]; exact hnot s⟩
  sent := fun s id func hmem => h.sent s id func (((hsinks s).calls id func).mp hmem)
  order := fun s c => by rw [(hsinks s).called]; exact h.order s c
  made := by
    intro id hid
    rw [(hprogram id.client).2] at hid
    obtain ⟨s, func, hget, hmade⟩ := h.made id hid
    exact ⟨s, func, hget, hmade.keeps (by rw [hfutures]) (hlocked _ s id func).mpr hsinks⟩
  results := by
    rw [hfutures]
    exact hresults

/-- What is called is called by a task in the queue. -/
theorem mem_called {k : Sink T R} {id : CallId} :
    id ∈ k.called ↔ ∃ func, .work (.call id func) ∈ k._bg.sent :=
  mem_callsOf

/-- A call that is sent to a sink has been made, and is not sent by anybody. -/
theorem lt_calls (h : Calls programs σ) {s : SinkId} {id : CallId}
    (hid : id ∈ (σ.sinks s).called) : id.n < (σ.clients id.client).calls := by
  by_contra hn
  exact (h.fresh id (by omega)).2 s hid

/-- A call is sent to one sink only, and with the function from the program. -/
theorem sink_unique (h : Calls programs σ) {s s' : SinkId} {id : CallId}
    (hs : id ∈ (σ.sinks s).called) (hs' : id ∈ (σ.sinks s').called) : s' = s := by
  obtain ⟨func, hfunc⟩ := mem_called.mp hs
  obtain ⟨func', hfunc'⟩ := mem_called.mp hs'
  have heq := (h.sent s' id func' hfunc').symm.trans (h.sent s id func hfunc)
  exact (Prod.mk.inj (Option.some.inj heq)).1

/-- No call is sent twice. -/
theorem nodup_called (h : Calls programs σ) (s : SinkId) : (σ.sinks s).called.Nodup := by
  rw [List.nodup_iff_count_le_one]
  intro id
  have hnodup : ((σ.sinks s).called.filter (·.client = id.client)).Nodup := by
    refine (h.order s id.client).imp fun hlt heq => ?_
    rw [heq] at hlt
    exact Nat.lt_irrefl _ hlt
  rw [← List.count_filter (p := (·.client = id.client)) (by simp)]
  exact List.nodup_iff_count_le_one.mp hnodup id

theorem keeps_update {s : SinkId} {k : Sink T R} (hk : (σ.sinks s).Keeps k) (s' : SinkId) :
    (σ.sinks s').Keeps (Function.update σ.sinks s k s') := by
  by_cases hs : s' = s
  · subst hs; simpa using hk
  · simpa [hs] using Sink.Keeps.refl _

/-- The results after one sink has changed. -/
theorem results_update (h : Calls programs σ) {s : SinkId} {k : Sink T R}
    {futures : CallId → Future R} (hk : k.created = true → k.Results futures)
    (hfutures : ∀ s' id, s' ≠ s → id ∈ (σ.sinks s').ran → futures id = σ.futures id)
    (s' : SinkId) (hs' : (Function.update σ.sinks s k s').created = true) :
    (Function.update σ.sinks s k s').Results futures := by
  by_cases hs : s' = s
  · subst hs
    simpa using hk (by simpa using hs')
  · simp only [Function.update_of_ne hs] at hs' ⊢
    exact (h.results s' hs').congr rfl rfl (fun _ => id) fun id hid => hfutures s' id hs hid

/-- The results of a sink are kept while only its references or its life change. -/
theorem results_keep (h : Calls programs σ) {s : SinkId} {k : Sink T R}
    (hk : k._bg.executed = (σ.sinks s)._bg.executed)
    (hcall : k._default_log_call = (σ.sinks s)._default_log_call)
    (hreal : ∀ t, k._real_sink = some t → (σ.sinks s)._real_sink = some t)
    (hcreated : k.created = (σ.sinks s).created) (s' : SinkId)
    (hs' : (Function.update σ.sinks s k s').created = true) :
    (Function.update σ.sinks s k s').Results σ.futures := by
  refine h.results_update (fun hc => ?_) (fun _ _ _ _ => rfl) s' hs'
  rw [hcreated] at hc
  exact (h.results s hc).congr (by rw [hk]) hcall hreal fun _ _ => rfl

/-- A client moves on with something else than a call. -/
theorem move (h : Calls programs σ) {c : ClientId} {k : Client T R}
    (hclients : σ'.clients = Function.update σ.clients c k)
    (hprogram : handleCalls k.program = handleCalls (σ.clients c).program ∧
      k.calls = (σ.clients c).calls)
    (hpc : (σ.clients c).pc.asyncs = false) (hk : k.pc.asyncs = false)
    (hfutures : σ'.futures = σ.futures) (hsinks : ∀ s, (σ.sinks s).Keeps (σ'.sinks s))
    (hresults : ∀ s, (σ'.sinks s).created = true → (σ'.sinks s).Results σ.futures) :
    Calls programs σ' := by
  refine h.frame (fun c' => ?_) (fun c' s id func => ?_) hfutures hsinks hresults
  all_goals
    rw [hclients]
    by_cases hc : c' = c
  · subst hc; simpa using hprogram
  · simp [hc]
  · subst hc
    rw [Function.update_self]
    constructor
    · intro heq
      simp [heq, ClientPc.asyncs] at hk
    · intro heq
      simp [heq, ClientPc.asyncs] at hpc
  · simp [hc]

/-- When a sink's thread is joined nothing is left in its queue, and no future broken. -/
theorem futures_destroySink (ho : Owned σ) {s : SinkId} (hjoining : Joining σ.pc σ.clients s)
    (hfinished : (σ.sinks s)._bg.finished = true) :
    (σ.destroySink s).futures = σ.futures := by
  have hlife := ho.life s
  obtain ⟨hcreated, hnot⟩ := hlife.not_strong hjoining
  have hdone := hlife.sound.done_of_finished hfinished
  have hmq := ((hlife.closed hcreated hnot).1.drained hlife.sound hdone).2.2
  simp [State.destroySink, Sink.abandoned, hmq]

/-- The next call of a client, by the number of calls it has made. -/
theorem next_call (h : Calls programs σ) {c : ClientId} {s : SinkId} {func : T → T × R}
    {rest : List (Op T R)} (hprogram : (σ.clients c).program = .call s func :: rest) :
    (handleCalls (programs c))[(σ.clients c).calls]? = some (s, func) ∧
      handleCalls rest = (handleCalls (programs c)).drop ((σ.clients c).calls + 1) := by
  have hdrop : (s, func) :: handleCalls rest =
      (handleCalls (programs c)).drop (σ.clients c).calls := by
    rw [← h.program c, hprogram]
    rfl
  refine ⟨?_, ?_⟩
  · have hhead := congrArg (·[0]?) hdrop
    simpa using hhead.symm
  · have htail := congrArg List.tail hdrop
    simpa using htail

/-- A client makes its next call: it has locked the sink, or has found it gone. -/
theorem start (h : Calls programs σ) {c : ClientId} {s : SinkId} {func : T → T × R}
    {rest : List (Op T R)} {pc : ClientPc T R} (hpc : (σ.clients c).pc = .idle)
    (hprogram : (σ.clients c).program = .call s func :: rest)
    (hclients : σ'.clients = Function.update σ.clients c ⟨rest, pc, (σ.clients c).calls + 1⟩)
    (hsinks : ∀ s', (σ.sinks s').Keeps (σ'.sinks s'))
    (hfutures : ∀ id, id ≠ ⟨c, (σ.clients c).calls⟩ → σ'.futures id = σ.futures id)
    (hmade : pc = .async s ⟨c, (σ.clients c).calls⟩ func ∧ σ'.futures = σ.futures ∨
      pc = .idle ∧ Made σ' ⟨c, (σ.clients c).calls⟩ s func)
    (hresults : ∀ s', (σ'.sinks s').created = true → (σ'.sinks s').Results σ'.futures) :
    Calls programs σ' := by
  obtain ⟨hget, hrest⟩ := h.next_call hprogram
  obtain ⟨hunset, hnot⟩ := h.fresh ⟨c, (σ.clients c).calls⟩ le_rfl
  have hself : σ'.clients c = ⟨rest, pc, (σ.clients c).calls + 1⟩ := by simp [hclients]
  have hother {c' : ClientId} (hc : c' ≠ c) : σ'.clients c' = σ.clients c' := by
    simp [hclients, hc]
  refine ⟨fun c' => ?_, fun c' s' id' func' hc' => ?_, fun id' hid' => ?_,
    fun s' id' func' hs' => ?_,
    fun s' c' => ?_, fun id' hid' => ?_, hresults⟩
  · by_cases hc : c' = c
    · subst hc
      simpa [hself] using hrest
    · rw [hother hc]
      exact h.program c'
  · by_cases hc : c' = c
    · subst hc
      rw [hself] at hc'
      rcases hmade with ⟨rfl, hsame⟩ | ⟨rfl, -⟩
      · obtain ⟨rfl, rfl, rfl⟩ := ClientPc.async.inj hc'
        refine ⟨rfl, by rw [hself], hget, by rw [hsame]; exact hunset, fun s'' => ?_⟩
        rw [(hsinks s'').called]
        exact hnot s''
      · simp at hc'
    · rw [hother hc] at hc' ⊢
      obtain ⟨hid, hn, hget', hunset', hnot'⟩ := h.locked c' s' id' func' hc'
      refine ⟨hid, hn, hget', ?_, fun s'' => by rw [(hsinks s'').called]; exact hnot' s''⟩
      rw [hfutures id' fun heq => hc ?_]
      · exact hunset'
      · rw [← hid, heq]
  · have hold : (σ.clients id'.client).calls ≤ id'.n ∧ id' ≠ ⟨c, (σ.clients c).calls⟩ := by
      by_cases hc : id'.client = c
      · simp only [hc, hself] at hid'
        refine ⟨by rw [hc]; omega, ?_⟩
        rintro rfl
        simp at hid'
      · rw [hother hc] at hid'
        refine ⟨hid', ?_⟩
        rintro rfl
        exact hc rfl
    obtain ⟨hunset', hnot'⟩ := h.fresh id' hold.1
    refine ⟨(hfutures id' hold.2).trans hunset', fun s'' => ?_⟩
    rw [(hsinks s'').called]
    exact hnot' s''
  · exact h.sent s' id' func' (((hsinks s').calls id' func').mp hs')
  · rw [(hsinks s').called]
    exact h.order s' c'
  · by_cases hnew : id' = ⟨c, (σ.clients c).calls⟩
    · subst hnew
      refine ⟨s, func, hget, ?_⟩
      rcases hmade with ⟨rfl, -⟩ | ⟨-, hmade⟩
      · exact .locked (by rw [hself])
      · exact hmade
    · have hold : id'.n < (σ.clients id'.client).calls := by
        by_cases hc : id'.client = c
        · have hne : id'.n ≠ (σ.clients c).calls := by
            rintro hn
            exact hnew (by rw [← hn, ← hc])
          simp only [hc, hself] at hid'
          rw [hc]
          omega
        · rwa [hother hc] at hid'
      obtain ⟨s', func', hget', hmade'⟩ := h.made id' hold
      refine ⟨s', func', hget', hmade'.keeps (hfutures id' hnew) (fun hasync => ?_) hsinks⟩
      rw [hother fun hc => ?_]
      · exact hasync
      · simp [hc, hpc] at hasync

/-- A call that comes after the earlier ones of its client. -/
theorem pairwise_concat {ids : List CallId} {id : CallId}
    (hlt : ∀ id' ∈ ids, id'.client = id.client → id'.n < id.n) (c : ClientId)
    (h : (ids.filter (·.client = c)).Pairwise (·.n < ·.n)) :
    ((ids ++ [id]).filter (·.client = c)).Pairwise (·.n < ·.n) := by
  rw [List.filter_append]
  by_cases hc : id.client = c
  · have hsingle : [id].filter (·.client = c) = [id] := by simp [hc]
    rw [hsingle, List.pairwise_append]
    refine ⟨h, List.pairwise_singleton _ _, fun id' hid' id'' hid'' => ?_⟩
    obtain rfl := List.mem_singleton.mp hid''
    obtain ⟨hmem, hclient⟩ := List.mem_filter.mp hid'
    exact hlt id' hmem ((of_decide_eq_true hclient).trans hc.symm)
  · simpa [hc] using h

/-- A client sends the function to the sink it has locked. -/
theorem async (h : Calls programs σ) {c : ClientId} {s : SinkId} {id : CallId}
    {func : T → T × R} (hpc : (σ.clients c).pc = .async s id func) :
    Calls programs { (σ.setSink s ((σ.sinks s).async id func)).goto c (.release s .call) with
      futures := Function.update σ.futures id .pending } := by
  obtain ⟨hid, hn, hget, hunset, hnot⟩ := h.locked c s id func hpc
  subst hid
  have hcalled (s' : SinkId) :
      (Function.update σ.sinks s ((σ.sinks s).async id func) s').called =
        (σ.sinks s').called ++ if s' = s then [id] else [] := by
    by_cases hs : s' = s
    · subst hs; simp
    · simp [hs]
  have hran (s' : SinkId) :
      (Function.update σ.sinks s ((σ.sinks s).async id func) s').ran = (σ.sinks s').ran := by
    by_cases hs : s' = s
    · subst hs
      rw [Function.update_self]
      rfl
    · simp [hs]
  have mem_old {s' : SinkId} {id' : CallId}
      (hmem : id' ∈ (Function.update σ.sinks s ((σ.sinks s).async id func) s').called) :
      id' ∈ (σ.sinks s').called ∨ id' = id := by
    rw [hcalled, List.mem_append] at hmem
    refine hmem.imp_right fun hnew => ?_
    split at hnew
    · exact List.mem_singleton.mp hnew
    · simp at hnew
  have hfutures {id' : CallId} (hne : id' ≠ id) :
      Function.update σ.futures id .pending id' = σ.futures id' := Function.update_of_ne hne _ _
  refine ⟨fun c' => ?_, fun c' s' id' func' hc' => ?_, fun id' hid' => ?_,
    fun s' id' func' hs' => ?_,
    fun s' c' => ?_, fun id' hid' => ?_, ?_⟩
  · by_cases hc : c' = id.client
    · subst hc; simpa using h.program id.client
    · simpa [hc] using h.program c'
  · have hc : c' ≠ id.client := by
      rintro rfl
      simp at hc'
    obtain ⟨hid, hn', hget', hunset', hnot'⟩ := h.locked c' s' id' func' (by simpa [hc] using hc')
    have hne : id' ≠ id := fun heq => hc (by rw [← hid, heq])
    refine ⟨hid, by simpa [hc] using hn', hget', (hfutures hne).trans hunset', fun s'' hmem => ?_⟩
    exact (mem_old hmem).elim (hnot' s'') hne
  · have hold : (σ.clients id'.client).calls ≤ id'.n := by
      by_cases hc : id'.client = id.client
      · simpa [hc] using hid'
      · simpa [hc] using hid'
    obtain ⟨hunset', hnot'⟩ := h.fresh id' hold
    have hne : id' ≠ id := by
      rintro rfl
      omega
    exact ⟨(hfutures hne).trans hunset', fun s'' hmem => (mem_old hmem).elim (hnot' s'') hne⟩
  · by_cases hs : s' = s
    · subst hs
      rcases (by simpa [Sink.async] using hs' :
        .work (.call id' func') ∈ (σ.sinks s')._bg.sent ∨ id' = id ∧ func' = func) with
        hold | ⟨rfl, rfl⟩
      · exact h.sent s' id' func' hold
      · exact hget
    · exact h.sent s' id' func' (by simpa [hs] using hs')
  · simp only [State.goto, State.setClient, State.setSink, hcalled]
    split
    · refine pairwise_concat (fun id' hid' hclient => ?_) c' (h.order s' c')
      have hlt := h.lt_calls hid'
      have hne : id'.n ≠ id.n := by
        intro hn'
        refine hnot s' ?_
        rwa [show id = id' from CallId.ext hclient.symm hn'.symm]
      rw [hclient] at hlt
      omega
    · simpa using h.order s' c'
  · by_cases hnew : id' = id
    · subst hnew
      refine ⟨s, func, hget, .sent ?_ fun _ => by simp⟩
      simp [Sink.async]
    · have hold : id'.n < (σ.clients id'.client).calls := by
        by_cases hc : id'.client = id.client
        · simpa [hc] using hid'
        · simpa [hc] using hid'
      obtain ⟨s', func', hget', hmade⟩ := h.made id' hold
      refine ⟨s', func', hget', hmade.mono (hfutures hnew) (fun hasync => ?_) (fun s'' hmem => ?_)
        (fun task htask _ => ?_) fun hr => ?_⟩
      · have hc : id'.client ≠ id.client := by
          intro hc
          rw [hc, hpc] at hasync
          exact hnew (ClientPc.async.inj hasync).2.1.symm
        simpa [hc] using hasync
      · exact (mem_old hmem).resolve_right hnew
      · by_cases hs : s' = s
        · subst hs
          simp [Sink.async, htask]
        · simpa [hs] using htask
      · simpa [hran] using hr
  · refine h.results_update (fun hcreated => ?_) fun s' id' hs hid' => ?_
    · refine (h.results s hcreated).congr rfl rfl (fun _ ht => ht) fun id' hid' => hfutures ?_
      rintro rfl
      exact hnot s ((σ.sinks s).ran_isPrefix.subset hid')
    · refine hfutures ?_
      rintro rfl
      exact hnot s' ((σ.sinks s').ran_isPrefix.subset hid')

theorem clientStep (h : Calls programs σ) (ho : Owned σ) {c : ClientId} {fresh : SinkId}
    (hs : ClientStep c fresh σ σ') : Calls programs σ' := by
  have hsame : ∀ s, (σ.sinks s).created = true → (σ.sinks s).Results σ.futures := h.results
  cases hs with
  | save hpc hprogram | fatal hpc hprogram | destroy hpc hprogram =>
      refine h.move rfl ⟨?_, rfl⟩ (by rw [hpc]; rfl) ?_ rfl (fun _ => .refl _) hsame
      · rw [hprogram]
        rfl
      · simp [ClientPc.asyncs, hpc]
  | sendSave hpc | readBg hpc | readNull hpc | sendAdd hpc | waitAdd hpc | sendClear hpc
  | waitClear hpc | resetBg hpc | joinBg hpc | destroyEnd hpc =>
      exact h.move rfl ⟨rfl, rfl⟩ (by rw [hpc]; rfl) rfl rfl (fun _ => .refl _) hsame
  | @make real_sink call rest hpc hprogram hfresh =>
      have hunmade := ho.held.unmade fresh hfresh
      refine h.move rfl ⟨?_, rfl⟩ (by rw [hpc]; rfl) rfl rfl (keeps_update ?_) ?_
      · rw [hprogram]
        rfl
      · exact Sink.keeps_of_bg (by rw [hunmade]; rfl)
      · refine h.results_update (fun _ => ⟨real_sink, ?_, ?_⟩) fun _ _ _ _ => rfl
        · exact fun t ht => (Option.some.inj ht).symm
        · simp [Sink.make, Active.createActive, SinkTask.runAll]
  | @releaseShared s role hpc =>
      refine h.move (k := ⟨_, _, _⟩) rfl ⟨rfl, rfl⟩ (by rw [hpc]; rfl) ?_ rfl ?_ ?_
      · cases role <;> rfl
      · rw [sinks_release]
        exact keeps_update (Sink.keeps_of_bg rfl)
      · rw [sinks_release]
        exact h.results_keep rfl rfl (fun _ => id) rfl
  | @releaseLast s role hpc =>
      exact h.move rfl ⟨rfl, rfl⟩ (by rw [hpc]; rfl) rfl rfl (keeps_update (Sink.keeps_close _))
        (h.results_keep rfl rfl (fun _ => id) rfl)
  | @join s role hpc hfinished =>
      have hjoining : Joining σ.pc σ.clients s := .inr ⟨c, by rw [hpc]; rfl⟩
      refine h.move (k := ⟨_, _, _⟩) rfl ⟨rfl, rfl⟩ (by rw [hpc]; rfl) ?_
        (futures_destroySink ho hjoining hfinished) ?_ ?_
      · cases role <;> rfl
      · rw [sinks_destroySink_release]
        exact keeps_update (Sink.keeps_of_bg rfl)
      · rw [sinks_destroySink_release]
        exact h.results_keep rfl rfl (by simp) rfl
  | destroyShared hpc =>
      exact h.frame (fun _ => ⟨rfl, rfl⟩) (fun _ _ _ _ => Iff.rfl) rfl (fun _ => .refl _) hsame
  | @destroyLast s rest hpc =>
      exact h.move rfl ⟨rfl, rfl⟩ (by rw [hpc]; rfl) rfl rfl (keeps_update (Sink.keeps_close _))
        (h.results_keep rfl rfl (fun _ => id) rfl)
  | @lock s func rest hpc hprogram hhandle hstrong =>
      refine h.start hpc hprogram rfl (keeps_update (Sink.keeps_of_bg rfl)) (fun _ _ => rfl)
        (.inl ⟨rfl, rfl⟩) ?_
      exact h.results_keep rfl rfl (fun _ => id) rfl
  | @gone s func rest hpc hprogram hhandle hstrong =>
      obtain ⟨-, hnot⟩ := h.fresh ⟨c, (σ.clients c).calls⟩ le_rfl
      have hclosed := ((ho.life s).closed (ho.held.created_of_handle hhandle)
        (not_strong_iff.mp hstrong)).1
      refine h.start hpc hprogram ?_ (fun _ => .refl _) (fun id hid => ?_) (.inr ⟨rfl, ?_⟩) ?_
      · simp [← hpc]
      · simp [hid]
      · exact .gone (by simp) hnot hclosed.done_mem
      · refine fun s' hs' => (h.results s' hs').congr rfl rfl (fun _ => id) fun id hid => ?_
        refine Function.update_of_ne ?_ _ _
        rintro rfl
        exact hnot s' ((σ.sinks s').ran_isPrefix.subset hid)
  | async hpc => exact h.async hpc

theorem workerStep (h : Calls programs σ) (ho : Owned σ) (hs : WorkerStep σ σ') :
    Calls programs σ' := by
  have hsame : ∀ s, (σ.sinks s).created = true → (σ.sinks s).Results σ.futures := h.results
  cases hs with
  | bgSave | bgFatal =>
      exact h.frame (fun _ => ⟨rfl, rfl⟩) (fun _ _ _ _ => Iff.rfl) rfl
        (keeps_update (Sink.keeps_send _ _)) (h.results_keep rfl rfl (fun _ => id) rfl)
  | clearLast =>
      exact h.frame (fun _ => ⟨rfl, rfl⟩) (fun _ _ _ _ => Iff.rfl) rfl
        (keeps_update (Sink.keeps_close _)) (h.results_keep rfl rfl (fun _ => id) rfl)
  | @join s fatal hpc hfinished =>
      have hjoining : Joining σ.pc σ.clients s := .inl (by rw [hpc]; rfl)
      exact h.frame (fun _ => ⟨rfl, rfl⟩) (fun _ _ _ _ => Iff.rfl)
        (futures_destroySink ho hjoining hfinished) (keeps_update (Sink.keeps_of_bg rfl))
        (h.results_keep rfl rfl (by simp) rfl)
  | _ =>
      exact h.frame (fun _ => ⟨rfl, rfl⟩) (fun _ _ _ _ => Iff.rfl) rfl (fun _ => .refl _) hsame

/-- The call that a turn runs is one that was sent to the sink and has not run before. -/
theorem turn_call (h : Calls programs σ) {s : SinkId} {k : Sink T R} {id : CallId} {r : R}
    (hturn : (σ.sinks s).turn = some (k, some (id, r))) :
    (∃ func, .work (.call id func) ∈ (σ.sinks s)._bg.sent) ∧ id ∉ (σ.sinks s).ran ∧ id ∈ k.ran := by
  rcases Sink.turn_cases hturn with
    ⟨-, -, hnone⟩ | ⟨-, -, hnone⟩ | ⟨task, t, hfunc, -, hex, -, hout⟩
  · simp at hnone
  · simp at hnone
  · cases task with
    | log msg => simp [SinkTask.run] at hout
    | call id' func =>
        obtain ⟨rfl, -⟩ := Prod.mk.inj (Option.some.inj hout)
        refine ⟨⟨func, Active.mem_sent_of_func hfunc⟩, fun hran => ?_, ?_⟩
        · have hcalled : (σ.sinks s).called =
              (σ.sinks s).ran ++ [id] ++ callsOf (workOf (σ.sinks s)._bg.mq_) := by
            rw [Sink.called, Sink.ran, Active.sent, hfunc, Active.workOf_append,
              Active.workOf_append, callsOf_append, callsOf_append]
            rfl
          have hnodup := h.nodup_called s
          rw [hcalled, List.append_assoc] at hnodup
          exact List.disjoint_of_nodup_append hnodup hran (by simp)
        · simp [Sink.ran, hex]

/-- A turn of a sink's thread: a call that runs leaves its result in its future. -/
theorem turn (h : Calls programs σ) {s : SinkId} {k : Sink T R} {out : Option (CallId × R)}
    {futures : CallId → Future R} (hcreated : (σ.sinks s).created = true)
    (hturn : (σ.sinks s).turn = some (k, out))
    (hout : ∀ id r, out = some (id, r) → futures id = .value r)
    (hother : ∀ id, (∀ r, out ≠ some (id, r)) → futures id = σ.futures id) :
    Calls programs { σ.setSink s k with futures := futures } := by
  have hsent := (Sink.turn_frame hturn).2.2.2
  have hcall := Sink.default_log_call_turn hturn
  have hcalled (s' : SinkId) : (Function.update σ.sinks s k s').called = (σ.sinks s').called := by
    by_cases hs : s' = s
    · subst hs
      rw [Function.update_self, Sink.called, hsent, Sink.called]
    · rw [Function.update_of_ne hs]
  have hsent' (s' : SinkId) :
      (Function.update σ.sinks s k s')._bg.sent = (σ.sinks s')._bg.sent := by
    by_cases hs : s' = s
    · subst hs
      rw [Function.update_self, hsent]
    · rw [Function.update_of_ne hs]
  -- A call that is not in the queue of the sink is not the one that has run.
  have hfutures {id : CallId} (hid : id ∉ (σ.sinks s).called) : futures id = σ.futures id := by
    refine hother id fun r heq => hid ?_
    subst heq
    exact mem_called.mpr (h.turn_call hturn).1
  refine ⟨h.program, fun c s' id func hc => ?_, fun id hid => ?_, fun s' id func hs' => ?_,
    fun s' c => ?_, fun id hid => ?_, ?_⟩
  · obtain ⟨hid, hn, hget, hunset, hnot⟩ := h.locked c s' id func hc
    refine ⟨hid, hn, hget, (hfutures (hnot s)).trans hunset, fun s'' hmem => hnot s'' ?_⟩
    exact (hcalled s'').subst hmem
  · obtain ⟨hunset, hnot⟩ := h.fresh id hid
    refine ⟨(hfutures (hnot s)).trans hunset, fun s'' hmem => hnot s'' ?_⟩
    exact (hcalled s'').subst hmem
  · exact h.sent s' id func ((hsent' s').subst hs')
  · simpa only [State.setSink, hcalled] using h.order s' c
  · by_cases hran : ∃ r, out = some (id, r)
    · obtain ⟨r, rfl⟩ := hran
      obtain ⟨⟨func, hfunc⟩, -, hran⟩ := h.turn_call hturn
      refine ⟨s, func, h.sent s id func hfunc, .sent ((hsent' s).symm.subst hfunc) fun hnot => ?_⟩
      exact absurd (by simpa using hran) hnot
    · obtain ⟨s', func, hget, hmade⟩ := h.made id hid
      refine ⟨s', func, hget, hmade.mono (hother id fun r heq => hran ⟨r, heq⟩) (fun hpc => hpc)
        (fun s'' hmem => (hcalled s'').subst hmem) (fun c hc _ => (hsent' s').symm.subst hc)
        fun hr => ?_⟩
      by_cases hs : s' = s
      · subst hs
        obtain ⟨rest, hrest⟩ := Sink.executed_turn hturn
        simp only [State.setSink, Function.update_self, Sink.ran, ← hrest]
        simpa using .inl hr
      · simpa [hs] using hr
  · refine h.results_update (fun _ => ?_) fun s' id hs hid => hfutures fun hmem => hs ?_
    · have hkept (id : CallId) (hid : id ∈ (σ.sinks s).ran) : futures id = σ.futures id := by
        refine hother id fun r heq => ?_
        subst heq
        exact (h.turn_call hturn).2.1 hid
      rcases Sink.turn_cases hturn with
        ⟨hex, hr, -⟩ | ⟨hex, hr, -⟩ | ⟨task, t, -, ht, hex, hr, hres⟩
      · exact (h.results s hcreated).congr (by rw [hex]) hcall (by simp [hr]) hkept
      · exact (h.results s hcreated).congr (by simp [hex]) hcall (by simp [hr]) hkept
      · obtain ⟨t₀, hreal, hold⟩ := (h.results s hcreated).congr rfl rfl (fun _ ht => ht) hkept
        obtain rfl := hreal t ht
        have hrun : workOf k._bg.executed = workOf (σ.sinks s)._bg.executed ++ [task] := by
          simp [hex]
        refine ⟨t₀, ?_, ?_⟩
        · rw [hrun, hcall, SinkTask.runAll_concat, hr]
          exact fun t' ht' => (Option.some.inj ht').symm
        · rw [hrun, hcall, SinkTask.runAll_concat]
          intro out' hmem
          rcases List.mem_append.mp hmem with hmem | hmem
          · exact hold out' hmem
          · rw [← hres, Option.mem_toList] at hmem
            exact hout _ _ hmem
    · exact h.sink_unique hmem ((σ.sinks s').ran_isPrefix.subset hid)

theorem sinkStep (h : Calls programs σ) {s : SinkId} (hs : SinkStep s σ σ') :
    Calls programs σ' := by
  cases hs with
  | turn hcreated hturn => exact h.turn hcreated hturn nofun fun _ _ => rfl
  | @value k id r hcreated hturn =>
      refine h.turn hcreated hturn (fun id' r' heq => ?_) fun id' hne => ?_
      · obtain ⟨rfl, rfl⟩ := Prod.mk.inj (Option.some.inj heq)
        simp
      · refine Function.update_of_ne ?_ _ _
        rintro rfl
        exact hne r rfl

theorem overlay (h : Calls programs σ) (hs : Overlay σ σ') : Calls programs σ' := by
  cases hs with
  | keep | send =>
      exact h.frame (fun _ => ⟨rfl, rfl⟩) (fun _ _ _ _ => Iff.rfl) rfl (fun _ => .refl _) h.results

theorem step (h : Calls programs σ) (ho : Owned σ) {a : Action} (hs : Step σ a σ') :
    Calls programs σ' := by
  rcases hs.data with ⟨c, fresh, hs⟩ | hs | ⟨s, hs⟩ | hs
  · exact h.clientStep ho hs
  · exact h.workerStep ho hs
  · exact h.sinkStep hs
  · exact h.overlay hs

theorem init (programs : ClientId → List (Op T R)) (active : Bool) :
    Calls programs (G3log.init programs active) where
  program := fun _ => rfl
  locked := nofun
  fresh := fun _ _ => ⟨rfl, fun _ => nofun⟩
  sent := nofun
  order := fun _ _ => .nil
  made := nofun
  results := nofun

end Calls

theorem reachableBy_of_leads {Ok : State T R → Action → Prop}
    {programs : ClientId → List (Op T R)} {active : Bool} {σ : State T R}
    (h : (logWorker T R).LeadsBy Ok (init programs active) σ) : (logWorker T R).ReachableBy Ok σ :=
  System.ReachableBy.leads (.start ⟨programs, active, rfl⟩) h

theorem calls {Ok : State T R → Action → Prop} {programs : ClientId → List (Op T R)}
    {active : Bool} {σ : State T R} (h : (logWorker T R).LeadsBy Ok (init programs active) σ) :
    Calls programs σ := by
  induction h with
  | refl => exact Calls.init programs active
  | step hl _ hs ih => exact ih.step (owned (reachableBy_of_leads hl)) (step_cases hs).2

end G3log
