import G3log.Draining
import G3log.SharedQueue

/-!
# An active object and its queue

The active object with the queue it has in the source: a thread that sends is in `push`,
the thread of the object is in its loop or asleep in `wait_and_pop`, and each of them takes
the steps of the queue one at a time. The callback that is being executed may send as well,
and so does the destructor, which then waits for the thread to end.

## Main definitions

* `ActiveQueue`, `ActiveQueue.step`, `activeQueue` -- the object, its queue and its threads.
* `ActiveQueue.seen` -- the object as if the operations of its queue took place at once.
* `ActiveQueue.drains_by_steps` -- it drains in order, as it does in `Draining`.
-/

namespace G3log

open Transition Monitors

/-- The threads that use an active object. -/
inductive ActiveThread (ι : Type)
  | sender (i : ι)
  /-- `thd_` -/
  | run
  | destructor
  deriving DecidableEq

/-- `mq_`, with the threads that are in its operations. -/
abbrev CallbackQueue (ι α : Type) :=
  Monitors.State (ActiveThread ι) (List (Callback α)) (SharedQueue.Op (Callback α))
    (SharedQueue.Result (Callback α))

abbrev CallbackQueueAction (ι α : Type) :=
  Monitors.Action (ActiveThread ι) (SharedQueue.Op (Callback α))

/-- An operation of `mq_` that has taken place. -/
abbrev CallbackQueueEntry (α : Type) :=
  Entry (SharedQueue.Op (Callback α)) (SharedQueue.Result (Callback α))

/-- Where `Active::run` is. -/
inductive RunPc (α : Type)
  /-- At the head of the loop. -/
  | loop
  | wait_and_pop
  | func (c : Callback α)
  /-- In `send`, called by the callback. -/
  | send (c : Callback α)
  | finished
  deriving DecidableEq

def RunPc.isFinished {α : Type} : RunPc α → Bool
  | .finished => true
  | _ => false

/-- Where `~Active` is, and with it the object. -/
inductive DestructorPc
  | notCalled
  | send
  /-- At `thd_.join()`. -/
  | join
  | joined
  /-- The members are gone. -/
  | destroyed
  deriving DecidableEq

/-- An active object, with the callbacks its thread has executed. -/
structure ActiveQueue (ι α : Type) where
  mq_ : CallbackQueue ι α
  run : RunPc α
  done_ : Bool
  destructor : DestructorPc
  executed : List (Callback α)

/-- A call of `send`, a step inside the queue, or a step of the loop or of the destructor. -/
inductive ActiveQueueAction (ι α : Type)
  | send (i : ι) (task : α)
  | sendFromCallback (task : α)
  | queue (a : CallbackQueueAction ι α)
  | run
  | destroy
  | join
  | destroyMembers

namespace ActiveQueue
variable {ι α : Type} [DecidableEq ι]

def createActive : ActiveQueue ι α := ⟨Monitors.init [], .loop, false, .notCalled, []⟩

/-- A thread calls an operation of the queue. -/
def call (movedFrom : Callback α → Callback α) (t : ActiveThread ι)
    (op : SharedQueue.Op (Callback α)) (s : ActiveQueue ι α) : Option (ActiveQueue ι α) :=
  (Monitors.step (shared_queue movedFrom) s.mq_ (.call t op)).map fun q => { s with mq_ := q }

/-- An operation of the queue returns to the thread that has called it. -/
def resume (s : ActiveQueue ι α) :
    Option (ActiveThread ι × SharedQueue.Result (Callback α)) → ActiveQueue ι α
  | some (.run, r) =>
      match s.run, r with
      | .wait_and_pop, .popped c => { s with run := .func c }
      | .send c, _ => { s with run := .func c }
      | _, _ => s
  | some (.destructor, _) => { s with destructor := .join }
  | some (.sender _, _) => s
  | none => s

omit [DecidableEq ι] in
@[simp] theorem mq_resume (s : ActiveQueue ι α)
    (out : Option (ActiveThread ι × SharedQueue.Result (Callback α))) :
    (s.resume out).mq_ = s.mq_ := by
  unfold resume
  split
  · split <;> rfl
  · rfl
  · rfl
  · rfl

/-- The callback returns, and the one of the destructor has set `done_`. -/
def funcReturns (c : Callback α) (s : ActiveQueue ι α) : ActiveQueue ι α :=
  { s with
    executed := s.executed ++ [c]
    done_ := s.done_ || (match c with | .done => true | .work _ => false)
    run := .loop }

def step (movedFrom : Callback α → Callback α) (s : ActiveQueue ι α) :
    ActiveQueueAction ι α → Option (ActiveQueue ι α)
  | .send i task =>
      if s.destructor = .destroyed then none
      else s.call movedFrom (.sender i) (.push (.work task))
  | .sendFromCallback task =>
      match s.run with
      | .func (.work f) =>
          (s.call movedFrom .run (.push (.work task))).map fun s =>
            { s with run := .send (.work f) }
      | _ => none
  | .queue (.call _ _) => none
  | .queue a =>
      (Monitors.step (shared_queue movedFrom) s.mq_ a).map fun q =>
        { s with mq_ := q }.resume (s.mq_.returns a)
  | .run =>
      match s.run with
      | .loop =>
          if s.done_ then some { s with run := .finished }
          else (s.call movedFrom .run .wait_and_pop).map fun s => { s with run := .wait_and_pop }
      | .func c => some (s.funcReturns c)
      | _ => none
  | .destroy =>
      if s.destructor = .notCalled then
        (s.call movedFrom .destructor (.push .done)).map fun s => { s with destructor := .send }
      else none
  | .join =>
      if s.destructor = .join ∧ s.run.isFinished = true then some { s with destructor := .joined }
      else none
  | .destroyMembers =>
      if s.destructor = .joined then some { s with destructor := .destroyed } else none

/-- The members are not destroyed while a thread is in `send`. That is up to the threads. -/
def Alive (s : ActiveQueue ι α) (a : ActiveQueueAction ι α) : Prop :=
  a = .destroyMembers → ∀ i, (s.mq_.pc (.sender i)).isNone = true

end ActiveQueue

/-- Any interleaving of the senders, the loop, the destructor and the steps of the queue. -/
def activeQueue (ι : Type) {α : Type} [DecidableEq ι] (movedFrom : Callback α → Callback α) :
    System (ActiveQueue ι α) (ActiveQueueAction ι α) where
  Start s := s = .createActive
  step := ActiveQueue.step movedFrom

namespace ActiveQueue
variable {ι α : Type} [DecidableEq ι] {movedFrom : Callback α → Callback α}
  {s s' : ActiveQueue ι α}

/-! ## What there is to see -/

/-- The callback that the thread of the object has taken. -/
def func (s : ActiveQueue ι α) : Option (Callback α) :=
  match s.run with
  | .func c | .send c => some c
  | .wait_and_pop =>
      match s.mq_.view .run with
      | some (_, some (.popped c)) => some c
      | _ => none
  | _ => none

/-- The destructor, whose callback is sent once its push has taken place. -/
def seenDestructor (s : ActiveQueue ι α) : ActiveDestructor :=
  match s.destructor with
  | .notCalled => .notCalled
  | .send =>
      match s.mq_.view .destructor with
      | some (_, some _) => .join
      | _ => .notCalled
  | .join | .joined => .join
  | .destroyed => .completed

/-- The object as if each operation of its queue took place at once. -/
def seen (s : ActiveQueue ι α) : Draining α where
  active := ⟨s.executed, s.func, s.mq_.settled, s.done_, s.run.isFinished⟩
  pushed := SharedQueue.pushed s.mq_.order
  destructor := s.seenDestructor

/-! ## The invariant -/

/-- What the thread of the object is doing in the queue. -/
def RunFits (done_ : Bool) :
    RunPc α → Option (SharedQueue.Op (Callback α) × Option (SharedQueue.Result (Callback α))) →
    Prop
  | .wait_and_pop, o => done_ = false ∧
      (o = some (.wait_and_pop, none) ∨ ∃ c, o = some (.wait_and_pop, some (.popped c)))
  | .send (.work _), o => ∃ task r, o = some (.push (.work task), r)
  | .send .done, _ => False
  | .loop, o | .func _, o | .finished, o => o = none

/-- The thread of the object is in an operation that has not taken place. -/
theorem RunFits.pending {done_ : Bool} {run : RunPc α} {op : SharedQueue.Op (Callback α)}
    (h : RunFits done_ run (some (op, none))) :
    (run = .wait_and_pop ∧ done_ = false ∧ op = .wait_and_pop) ∨
      ∃ f task, run = .send (.work f) ∧ op = .push (.work task) := by
  cases run with
  | wait_and_pop =>
      obtain ⟨hdone, hop | ⟨c, hop⟩⟩ := h
      · exact .inl ⟨rfl, hdone, (Prod.mk.inj (Option.some.inj hop)).1⟩
      · cases hop
  | send c =>
      cases c with
      | done => exact h.elim
      | work f =>
          obtain ⟨task, r, htask⟩ := h
          exact .inr ⟨f, task, rfl, (Prod.mk.inj (Option.some.inj htask)).1⟩
  | loop => cases h
  | func c => cases h
  | finished => cases h

/-- An operation of the thread of the object has taken place. -/
theorem RunFits.settled {done_ : Bool} {run : RunPc α} {op : SharedQueue.Op (Callback α)}
    {r : SharedQueue.Result (Callback α)} (h : RunFits done_ run (some (op, some r))) :
    (∃ c, run = .wait_and_pop ∧ done_ = false ∧ r = .popped c) ∨ ∃ f, run = .send (.work f) := by
  cases run with
  | wait_and_pop =>
      obtain ⟨hdone, hop | ⟨c, hop⟩⟩ := h
      · cases hop
      · obtain ⟨-, hr⟩ := Prod.mk.inj (Option.some.inj hop)
        exact .inl ⟨c, rfl, hdone, Option.some.inj hr⟩
  | send c =>
      cases c with
      | done => exact h.elim
      | work f => exact .inr ⟨f, rfl⟩
  | loop => cases h
  | func c => cases h
  | finished => cases h

/-- Each thread is in the operation of the queue that it has called. -/
structure Wf (movedFrom : Callback α → Callback α) (s : ActiveQueue ι α) : Prop where
  sound : Sound (shared_queue movedFrom) [] s.mq_
  awake : Awake SharedQueue.takes List.length s.mq_
  run : RunFits s.done_ s.run (s.mq_.view .run)
  inSend : s.destructor = .send → ∃ r, s.mq_.view .destructor = some (.push .done, r)
  notInSend : s.destructor ≠ .send → s.mq_.view .destructor = none
  senders : ∀ i op r, s.mq_.view (.sender i) = some (op, r) → ∃ task, op = .push (.work task)
  alive : s.destructor = .destroyed → ∀ i, s.mq_.view (.sender i) = none
  joined : s.destructor = .joined → s.run.isFinished = true

omit [DecidableEq ι] in
theorem wf_createActive : Wf movedFrom (createActive : ActiveQueue ι α) := by
  constructor
  · exact sound_init _ _
  · exact awake_init
  · rfl
  · exact fun h => by cases h
  · exact fun _ => rfl
  · exact fun i op r h => by cases h
  · exact fun h => by cases h
  · exact fun h => by cases h

/-- A step shows as one of the object, or not at all. -/
def Shows (s s' : ActiveQueue ι α) : Prop :=
  s'.seen = s.seen ∨ ∃ b : DrainAction ι α, s.seen.step b = some s'.seen

/-- The queue keeps its own invariants. -/
theorem Wf.queue (h : Wf movedFrom s)
    {a : CallbackQueueAction ι α} {q : CallbackQueue ι α}
    (hmove : Move (shared_queue movedFrom) s.mq_ a q) :
    Sound (shared_queue movedFrom) [] q ∧ Awake SharedQueue.takes List.length q :=
  ⟨h.sound.move hmove, h.awake.move (SharedQueue.counting_shared_queue movedFrom) h.sound hmove⟩

/-- An operation of the queue is called. -/
theorem Wf.call_spec (h : Wf movedFrom s) {t : ActiveThread ι}
    {op : SharedQueue.Op (Callback α)} (hcall : s.call movedFrom t op = some s') :
    ∃ q, s' = { s with mq_ := q } ∧ Called s.mq_ t op q ∧
      Sound (shared_queue movedFrom) [] q ∧ Awake SharedQueue.takes List.length q := by
  obtain ⟨q, hq, rfl⟩ := Option.map_eq_some_iff.mp hcall
  exact ⟨q, rfl, called_of_move (move_of_step hq), h.queue (move_of_step hq)⟩

section Moves
variable {q : CallbackQueue ι α}
  {o : Option (SharedQueue.Op (Callback α) × Option (SharedQueue.Result (Callback α)))}

/-- The thread of the object goes on, and what it does in the queue fits. -/
theorem Wf.runMoves (h : Wf movedFrom s) {run : RunPc α}
    (hq : Sound (shared_queue movedFrom) [] q ∧ Awake SharedQueue.takes List.length q)
    (hview' : q.view = Function.update s.mq_.view .run o) (hfits : RunFits s.done_ run o)
    (hfinished : run.isFinished = s.run.isFinished) :
    Wf movedFrom { s with mq_ := q, run := run } := by
  constructor
  · exact hq.1
  · exact hq.2
  · simpa [hview'] using hfits
  · simpa [hview'] using h.inSend
  · simpa [hview'] using h.notInSend
  · simpa [hview'] using h.senders
  · simpa [hview'] using h.alive
  · simpa [hfinished] using h.joined

/-- A thread that sends goes on, and it only pushes work. -/
theorem Wf.senderMoves (h : Wf movedFrom s) {i : ι}
    (hq : Sound (shared_queue movedFrom) [] q ∧ Awake SharedQueue.takes List.length q)
    (hview' : q.view = Function.update s.mq_.view (.sender i) o)
    (hpush : ∀ op r, o = some (op, r) → ∃ task, op = .push (.work task))
    (halive : s.destructor ≠ .destroyed) : Wf movedFrom { s with mq_ := q } := by
  constructor
  · exact hq.1
  · exact hq.2
  · simpa [hview'] using h.run
  · simpa [hview'] using h.inSend
  · simpa [hview'] using h.notInSend
  · intro j op r hj
    simp only [hview'] at hj
    by_cases hij : j = i
    · subst hij
      rw [Function.update_self] at hj
      exact hpush op r hj
    · rw [Function.update_of_ne (by simpa using hij)] at hj
      exact h.senders j op r hj
  · exact fun hdestroyed => absurd hdestroyed halive
  · exact h.joined

/-- The destructor goes on: it is in its push or through with it. -/
theorem Wf.destructorMoves (h : Wf movedFrom s) {destructor : DestructorPc}
    (hq : Sound (shared_queue movedFrom) [] q ∧ Awake SharedQueue.takes List.length q)
    (hview' : q.view = Function.update s.mq_.view .destructor o)
    (hfits : (destructor = .send ∧ ∃ r, o = some (.push .done, r)) ∨
      (destructor = .join ∧ o = none)) :
    Wf movedFrom { s with mq_ := q, destructor := destructor } := by
  have hrun : RunFits s.done_ s.run (q.view .run) := by simpa [hview'] using h.run
  have hsenders : ∀ i op r, q.view (.sender i) = some (op, r) →
      ∃ task, op = .push (.work task) := by simpa [hview'] using h.senders
  rcases hfits with ⟨rfl, r, hr⟩ | ⟨rfl, hnone⟩
  · exact ⟨hq.1, hq.2, hrun, fun _ => ⟨r, by simp [hview', hr]⟩, fun hne => absurd rfl hne,
      hsenders, by simp, by simp⟩
  · exact ⟨hq.1, hq.2, hrun, by simp, fun _ => by simp [hview', hnone], hsenders, by simp,
      by simp⟩

end Moves

/-- A thread sends. -/
theorem Wf.send (h : Wf movedFrom s) (halive : s.destructor ≠ .destroyed) {i : ι} {task : α}
    (hcall : s.call movedFrom (.sender i) (.push (.work task)) = some s') :
    Wf movedFrom s' ∧ s'.seen = s.seen := by
  obtain ⟨q, rfl, hcalled, hq⟩ := h.call_spec hcall
  constructor
  · refine h.senderMoves hq hcalled.view_eq (fun op r ho => ?_) halive
    exact ⟨task, (Prod.mk.inj (Option.some.inj ho)).1.symm⟩
  · simp [seen, func, seenDestructor, hcalled.view_eq, hcalled.settled, hcalled.order]

/-- The callback that is being executed sends. -/
theorem Wf.sendFromCallback (h : Wf movedFrom s) {f task : α} (hrun : s.run = .func (.work f))
    (hcall : s.call movedFrom .run (.push (.work task)) = some s') :
    Wf movedFrom { s' with run := .send (.work f) } ∧
      { s' with run := .send (.work f) }.seen = s.seen := by
  obtain ⟨q, rfl, hcalled, hq⟩ := h.call_spec hcall
  constructor
  · exact h.runMoves hq hcalled.view_eq ⟨task, none, rfl⟩ (by rw [hrun]; rfl)
  · simp [seen, func, seenDestructor, hcalled.view_eq, hcalled.settled, hcalled.order, hrun,
      RunPc.isFinished]

theorem Wf.wait_and_pop (h : Wf movedFrom s) (hrun : s.run = .loop) (hdone : s.done_ = false)
    (hcall : s.call movedFrom .run .wait_and_pop = some s') :
    Wf movedFrom { s' with run := .wait_and_pop } ∧
      { s' with run := .wait_and_pop }.seen = s.seen := by
  obtain ⟨q, rfl, hcalled, hq⟩ := h.call_spec hcall
  constructor
  · exact h.runMoves hq hcalled.view_eq ⟨hdone, .inl rfl⟩ (by rw [hrun]; rfl)
  · simp [seen, func, seenDestructor, hcalled.view_eq, hcalled.settled, hcalled.order, hrun,
      RunPc.isFinished]

theorem Wf.destroy (h : Wf movedFrom s) (hdestructor : s.destructor = .notCalled)
    (hcall : s.call movedFrom .destructor (.push .done) = some s') :
    Wf movedFrom { s' with destructor := .send } ∧
      { s' with destructor := .send }.seen = s.seen := by
  obtain ⟨q, rfl, hcalled, hq⟩ := h.call_spec hcall
  constructor
  · exact h.destructorMoves hq hcalled.view_eq (.inl ⟨rfl, none, rfl⟩)
  · simp [seen, func, seenDestructor, hcalled.view_eq, hcalled.settled, hcalled.order,
      hdestructor]

/-- A push of a thread that sends takes place. -/
theorem Wf.takesPlace_sender (h : Wf movedFrom s) {i : ι}
    {q : CallbackQueue ι α} {e : CallbackQueueEntry α}
    (hq : Sound (shared_queue movedFrom) [] q ∧ Awake SharedQueue.takes List.length q)
    (hview : s.mq_.view (.sender i) = some (e.op, none))
    (hview' : q.view = Function.update s.mq_.view (.sender i) (some (e.op, some e.result)))
    (hspec : SharedQueue.fifo e.op s.mq_.settled = some (q.settled, e.result))
    (horder : q.order = s.mq_.order ++ [e]) :
    Wf movedFrom { s with mq_ := q } ∧ Shows s { s with mq_ := q } := by
  obtain ⟨task, hop⟩ := h.senders i _ _ hview
  have hdestroyed : s.destructor ≠ .destroyed := by
    intro hdestroyed
    simp [h.alive hdestroyed i] at hview
  constructor
  · refine h.senderMoves hq hview' (fun op r ho => ?_) hdestroyed
    exact ⟨task, (Prod.mk.inj (Option.some.inj ho)).1.symm.trans hop⟩
  · rw [hop] at hspec
    have hcompleted : s.seen.destructor ≠ .completed := by
      change s.seenDestructor ≠ .completed
      unfold seenDestructor
      cases hd : s.destructor <;> simp_all
      split <;> simp
    refine .inr ⟨.send i task, ?_⟩
    rw [Draining.step, if_neg hcompleted]
    simp [seen, Draining.push, Active.send, func, seenDestructor, hview', horder,
      SharedQueue.fifo_push hspec, SharedQueue.pushed, hop]

/-- A push of the callback takes place, or the loop takes a callback. -/
theorem Wf.takesPlace_run (h : Wf movedFrom s)
    {q : CallbackQueue ι α} {e : CallbackQueueEntry α}
    (hq : Sound (shared_queue movedFrom) [] q ∧ Awake SharedQueue.takes List.length q)
    (hview : s.mq_.view .run = some (e.op, none))
    (hview' : q.view = Function.update s.mq_.view .run (some (e.op, some e.result)))
    (hspec : SharedQueue.fifo e.op s.mq_.settled = some (q.settled, e.result))
    (horder : q.order = s.mq_.order ++ [e]) :
    Wf movedFrom { s with mq_ := q } ∧ Shows s { s with mq_ := q } := by
  have hfits := h.run
  rw [hview] at hfits
  rcases hfits.pending with ⟨hrun, hdone, hop⟩ | ⟨f, task, hrun, hop⟩
  · rw [hop] at hspec
    obtain ⟨c, hsettled, hresult⟩ := SharedQueue.fifo_wait_and_pop hspec
    constructor
    · refine h.runMoves hq hview' ?_ rfl
      rw [hrun]
      exact ⟨hdone, .inr ⟨c, by rw [hop, hresult]⟩⟩
    · refine .inr ⟨.run, ?_⟩
      simp [Draining.step, Draining.runStep, seen, func, hrun, hview, hdone, Active.pop,
        hsettled, hview', hresult, horder, seenDestructor, SharedQueue.pushed, hop]
  · rw [hop] at hspec
    constructor
    · refine h.runMoves hq hview' ?_ rfl
      rw [hrun]
      exact ⟨task, some e.result, by rw [hop]⟩
    · refine .inr ⟨.sendFromCallback task, ?_⟩
      simp [Draining.step, seen, func, hrun, Draining.push, Active.send, hview', horder,
        seenDestructor, SharedQueue.fifo_push hspec, SharedQueue.pushed, hop]

/-- The push of the destructor takes place. -/
theorem Wf.takesPlace_destructor (h : Wf movedFrom s)
    {q : CallbackQueue ι α} {e : CallbackQueueEntry α}
    (hq : Sound (shared_queue movedFrom) [] q ∧ Awake SharedQueue.takes List.length q)
    (hview : s.mq_.view .destructor = some (e.op, none))
    (hview' : q.view = Function.update s.mq_.view .destructor (some (e.op, some e.result)))
    (hspec : SharedQueue.fifo e.op s.mq_.settled = some (q.settled, e.result))
    (horder : q.order = s.mq_.order ++ [e]) :
    Wf movedFrom { s with mq_ := q } ∧ Shows s { s with mq_ := q } := by
  have hsend : s.destructor = .send := by
    by_contra hne
    simp [h.notInSend hne] at hview
  obtain ⟨r, hr⟩ := h.inSend hsend
  obtain ⟨hop, -⟩ := Prod.mk.inj (Option.some.inj (hview.symm.trans hr))
  constructor
  · exact h.destructorMoves hq hview' (.inl ⟨hsend, some e.result, by rw [hop]⟩)
  · rw [hop] at hspec
    refine .inr ⟨.destroy, ?_⟩
    simp [Draining.step, seen, seenDestructor, hsend, hview, Draining.push, Active.send, func,
      hview', horder, SharedQueue.fifo_push hspec, SharedQueue.pushed, hop]

/-- An operation returns, and nothing that was to be seen changes. -/
theorem Wf.returns (h : Wf movedFrom s) {t : ActiveThread ι} {op : SharedQueue.Op (Callback α)}
    {r : SharedQueue.Result (Callback α)}
    {q : CallbackQueue ι α}
    (hq : Sound (shared_queue movedFrom) [] q ∧ Awake SharedQueue.takes List.length q)
    (hview : s.mq_.view t = some (op, some r))
    (hview' : q.view = Function.update s.mq_.view t none)
    (hsettled : q.settled = s.mq_.settled) (horder : q.order = s.mq_.order) :
    Wf movedFrom ({ s with mq_ := q }.resume (some (t, r))) ∧
      ({ s with mq_ := q }.resume (some (t, r))).seen = s.seen := by
  cases t with
  | sender i =>
      have hdestroyed : s.destructor ≠ .destroyed := by
        intro hd
        simp [h.alive hd i] at hview
      constructor
      · exact h.senderMoves hq hview' (fun op r ho => by cases ho) hdestroyed
      · simp [resume, seen, func, seenDestructor, hview', hsettled, horder]
  | destructor =>
      have hsend : s.destructor = .send := by
        by_contra hne
        simp [h.notInSend hne] at hview
      constructor
      · exact h.destructorMoves hq hview' (.inr ⟨rfl, rfl⟩)
      · simp [resume, seen, func, seenDestructor, hview, hview', hsettled, horder, hsend]
  | run =>
      have hfits := h.run
      rw [hview] at hfits
      rcases hfits.settled with ⟨c, hrun, hdone, rfl⟩ | ⟨f, hrun⟩
      · have hresume : { s with mq_ := q }.resume (some (.run, .popped c)) =
            { s with mq_ := q, run := .func c } := by
          simp [resume, hrun]
        rw [hresume]
        constructor
        · exact h.runMoves hq hview' rfl (by rw [hrun]; rfl)
        · simp [seen, func, seenDestructor, hview, hview', hsettled, horder, hrun,
            RunPc.isFinished]
      · have hresume : { s with mq_ := q }.resume (some (.run, r)) =
            { s with mq_ := q, run := .func (.work f) } := by
          simp [resume, hrun]
        rw [hresume]
        constructor
        · exact h.runMoves hq hview' rfl (by rw [hrun]; rfl)
        · simp [seen, func, seenDestructor, hview', hsettled, horder, hrun, RunPc.isFinished]

/-- A step in the queue. -/
theorem Wf.queueStep (h : Wf movedFrom s)
    {a : CallbackQueueAction ι α} {q : CallbackQueue ι α}
    (hcall : ∀ t op, a ≠ .call t op)
    (hq : Monitors.step (shared_queue movedFrom) s.mq_ a = some q) :
    Wf movedFrom ({ s with mq_ := q }.resume (s.mq_.returns a)) ∧
      Shows s ({ s with mq_ := q }.resume (s.mq_.returns a)) := by
  have hkeeps := h.queue (move_of_step hq)
  cases h.sound.observed (move_of_step hq) hcall with
  | silent hreturns hview' hsettled horder =>
      rw [hreturns]
      constructor
      · constructor
        · exact hkeeps.1
        · exact hkeeps.2
        · simpa [resume, hview'] using h.run
        · simpa [resume, hview'] using h.inSend
        · simpa [resume, hview'] using h.notInSend
        · simpa [resume, hview'] using h.senders
        · simpa [resume, hview'] using h.alive
        · exact h.joined
      · exact .inl (by simp [resume, seen, func, seenDestructor, hview', hsettled, horder])
  | @takesPlace t e hreturns hview hview' hspec horder =>
      rw [hreturns]
      rw [SharedQueue.spec_shared_queue] at hspec
      cases t with
      | sender i => exact h.takesPlace_sender hkeeps hview hview' hspec horder
      | run => exact h.takesPlace_run hkeeps hview hview' hspec horder
      | destructor => exact h.takesPlace_destructor hkeeps hview hview' hspec horder
  | ret hreturns hview hview' hsettled horder =>
      rw [hreturns]
      exact (h.returns hkeeps hview hview' hsettled horder).imp_right .inl

/-- The loop ends, or a callback returns. -/
theorem Wf.runStep (h : Wf movedFrom s) (hstep : step movedFrom s .run = some s') :
    Wf movedFrom s' ∧ Shows s s' := by
  simp only [step] at hstep
  split at hstep
  · next hrun =>
      split at hstep
      · next hdone =>
          obtain rfl := Option.some.inj hstep
          have hview : s.mq_.view .run = none := by simpa [hrun, RunFits] using h.run
          constructor
          · exact ⟨h.sound, h.awake, hview, h.inSend, h.notInSend, h.senders, h.alive, fun _ => rfl⟩
          · refine .inr ⟨.run, ?_⟩
            simp [Draining.step, Draining.runStep, seen, func, hrun, hdone, Active.exit,
              seenDestructor, RunPc.isFinished]
      · next hdone =>
          obtain ⟨s₁, hcall, rfl⟩ := Option.map_eq_some_iff.mp hstep
          obtain ⟨hwf, hseen⟩ := h.wait_and_pop hrun (by simpa using hdone) hcall
          exact ⟨hwf, .inl hseen⟩
  · next c hrun =>
      obtain rfl := Option.some.inj hstep
      have hview : s.mq_.view .run = none := by simpa [hrun, RunFits] using h.run
      constructor
      · refine ⟨h.sound, h.awake, hview, h.inSend, h.notInSend, h.senders, h.alive, ?_⟩
        simpa [funcReturns, hrun, RunPc.isFinished] using h.joined
      · refine .inr ⟨.run, ?_⟩
        simp only [Draining.step, Draining.runStep, seen, func, hrun, funcReturns, Active.ret,
          seenDestructor, RunPc.isFinished]
        cases c <;> rfl
  · cases hstep

/-- Every step keeps the invariant, and shows as a step of the object or not at all. -/
theorem Wf.step (h : Wf movedFrom s) {a : ActiveQueueAction ι α} (halive : Alive s a)
    (hstep : ActiveQueue.step movedFrom s a = some s') : Wf movedFrom s' ∧ Shows s s' := by
  cases a with
  | send i task =>
      simp only [ActiveQueue.step] at hstep
      split at hstep
      · cases hstep
      · next hdestroyed =>
          obtain ⟨hwf, hseen⟩ := h.send hdestroyed hstep
          exact ⟨hwf, .inl hseen⟩
  | sendFromCallback task =>
      simp only [ActiveQueue.step] at hstep
      split at hstep
      · next f hrun =>
          obtain ⟨s₁, hcall, rfl⟩ := Option.map_eq_some_iff.mp hstep
          obtain ⟨hwf, hseen⟩ := h.sendFromCallback hrun hcall
          exact ⟨hwf, .inl hseen⟩
      · cases hstep
  | queue a =>
      cases a with
      | call t op => cases hstep
      | run t =>
          obtain ⟨q, hq, rfl⟩ := Option.map_eq_some_iff.mp hstep
          exact h.queueStep (by simp) hq
      | spurious t =>
          obtain ⟨q, hq, rfl⟩ := Option.map_eq_some_iff.mp hstep
          exact h.queueStep (by simp) hq
      | notify t u =>
          obtain ⟨q, hq, rfl⟩ := Option.map_eq_some_iff.mp hstep
          exact h.queueStep (by simp) hq
  | run => exact h.runStep hstep
  | destroy =>
      simp only [ActiveQueue.step] at hstep
      split at hstep
      · next hnot =>
          obtain ⟨s₁, hcall, rfl⟩ := Option.map_eq_some_iff.mp hstep
          obtain ⟨hwf, hseen⟩ := h.destroy hnot hcall
          exact ⟨hwf, .inl hseen⟩
      · cases hstep
  | join =>
      simp only [ActiveQueue.step] at hstep
      split at hstep
      · next hjoin =>
          obtain rfl := Option.some.inj hstep
          have hview := h.notInSend (by simp [hjoin.1])
          constructor
          · exact ⟨h.sound, h.awake, h.run, by simp, fun _ => hview, h.senders, by simp,
              fun _ => hjoin.2⟩
          · exact .inl (by simp [seen, func, seenDestructor, hjoin.1])
      · cases hstep
  | destroyMembers =>
      simp only [ActiveQueue.step] at hstep
      split at hstep
      · next hjoined =>
          obtain rfl := Option.some.inj hstep
          have hview := h.notInSend (by simp [hjoined])
          constructor
          · refine ⟨h.sound, h.awake, h.run, by simp, fun _ => hview, h.senders, ?_, by simp⟩
            intro _ i
            simpa [Monitors.State.view] using halive rfl i
          · refine .inr ⟨.join, ?_⟩
            simp [Draining.step, seen, seenDestructor, hjoined, h.joined hjoined, func]
      · cases hstep

/-! ## The runs -/

theorem wf_of_reachable (h : (activeQueue ι movedFrom).ReachableBy Alive s) :
    Wf movedFrom s := by
  apply h.invariant
  · intro s hs
    rw [hs]
    exact wf_createActive
  · intro s a s' _ halive hwf hstep
    exact (hwf.step halive hstep).1

/-- A run shows as one in which the operations of the queue take place at once. -/
theorem seen_reachable (h : (activeQueue ι movedFrom).ReachableBy Alive s) :
    (draining ι α).Reachable s.seen := by
  apply h.refines
  · intro s hs
    rw [hs]
    rfl
  · intro s a s' hs halive hstep
    exact ((wf_of_reachable hs).step halive hstep).2

/-- With the steps of its queue an active object drains in order, too, and the order is one in
which the calls of `send` can have been made. -/
theorem drains_by_steps (h : (activeQueue ι movedFrom).ReachableBy Alive s) :
    Draining.Drained s.seen ∧
      Linearization SharedQueue.fifo [] s.mq_.history s.mq_.order ∧
      (s.mq_.owner = none → s.mq_.shared = s.seen.active.mq_) := by
  have hsound := (wf_of_reachable h).sound
  have hlinear := hsound.linearization
  rw [SharedQueue.spec_shared_queue] at hlinear
  exact ⟨(Draining.inv (seen_reachable h)).drained, hlinear, hsound.exclusive.free⟩

/-- `Alive`, for so many threads that they can be gone through. -/
def checksAlive [Fintype ι] (s : ActiveQueue ι α) : ActiveQueueAction ι α → Bool
  | .destroyMembers => decide (∀ i, (s.mq_.pc (.sender i)).isNone = true)
  | _ => true

omit [DecidableEq ι] in
theorem alive_of_checksAlive [Fintype ι] {a : ActiveQueueAction ι α}
    (h : checksAlive s a = true) : Alive s a := by
  rintro rfl
  exact of_decide_eq_true h

/-- The steps of a push, by a thread that finds somebody asleep or not. -/
def pushSteps (t : ActiveThread ι) (u : Option (ActiveThread ι)) :
    List (ActiveQueueAction ι α) :=
  [.queue (.run t), .queue (.run t), .queue (.run t), .queue (.run t), .queue (.notify t u),
    .queue (.run t)]

/-- The steps of the thread of the object in the queue, `n` of them. -/
def runSteps (n : ℕ) : List (ActiveQueueAction ι α) := List.replicate n (.queue (.run .run))

/-- A thread that sends wakes the one of the object, and its callback sends as well. -/
def wokenRun : List (ActiveQueueAction (Fin 2) ℕ) :=
  List.flatten [[.run], runSteps 2, [.send 0 5], pushSteps (.sender 0) (some .run), runSteps 6,
    [.destroy], pushSteps .destructor none, [.sendFromCallback 6], pushSteps .run none,
    [.run, .run], runSteps 6, [.run, .run, .join, .destroyMembers]]

/-- The thread is asleep when somebody sends. It is woken, and its callback sends as well, behind
the one of the destructor. -/
theorem drains_by_steps_woken :
    ∃ s : ActiveQueue (Fin 2) ℕ, (activeQueue (Fin 2) id).ReachableBy Alive s ∧
      s.executed = [.work 5, .done] ∧ s.mq_.shared = [.work 6] ∧ s.destructor = .destroyed ∧
      Draining.Drained s.seen ∧
      Linearization SharedQueue.fifo [] s.mq_.history s.mq_.order ∧
      (s.mq_.owner = none → s.mq_.shared = s.seen.active.mq_) := by
  have hrun : ((activeQueue (Fin 2) id).runBy checksAlive createActive wokenRun).any
      (fun s => decide (s.executed = [.work 5, .done]) && decide (s.mq_.shared = [.work 6]) &&
        decide (s.destructor = .destroyed)) = true := by
    decide +kernel
  obtain ⟨s, hs, hend⟩ := System.exists_reachableBy rfl hrun
  have halive := hs.mono fun _ _ => alive_of_checksAlive
  simp only [Bool.and_eq_true, decide_eq_true_eq] at hend
  exact ⟨s, halive, hend.1.1, hend.1.2, hend.2, drains_by_steps halive⟩

end ActiveQueue
end G3log
