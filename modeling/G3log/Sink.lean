import G3log.Active
import G3log.LogMessage

/-!
# Sinks

A `Sink` wraps a real sink of some type `T` with an active object, whose thread is the
only one to touch the real sink: it makes the default log call for each message sent,
and runs the functions that clients pass through a `SinkHandle`. It lives as long as a
`shared_ptr` to it does: one in the vector of the worker, and one for each client that
is inside `SinkHandle::call` or `addSink`.

## Main definitions

* `SinkTask`, `SinkTask.run` -- what a sink's thread does with the real sink.
* `Sink`, `Sink.turn` -- the sink, and one turn of its thread.
-/

namespace G3log

abbrev SinkId := ℕ
abbrev ClientId := ℕ

/-- The `n`-th call that a client has made through sink handles. -/
@[ext] structure CallId where
  client : ClientId
  n : ℕ
  deriving DecidableEq, Repr

/-- What the future of a call holds. -/
inductive Future (R : Type)
  /-- The call has not got as far as to make one. -/
  | unset
  | pending
  | value (r : R)
  | bad_weak_ptr
  | broken_promise
  deriving DecidableEq

variable {T R : Type}

/-- Work for the thread of a sink. -/
inductive SinkTask (T R : Type)
  | log (msg : LogMessage)
  | call (id : CallId) (func : T → T × R)

/-- The messages of the log calls among some work. -/
def logsOf (tasks : List (SinkTask T R)) : List LogMessage :=
  tasks.filterMap fun
    | .log msg => some msg
    | .call _ _ => none

/-- The calls through handles among some work. -/
def callsOf (tasks : List (SinkTask T R)) : List CallId :=
  tasks.filterMap fun
    | .log _ => none
    | .call id _ => some id

/-- The effect on the real sink, and the result that goes into a future. -/
def SinkTask.run (default_log_call : LogMessage → T → T) (real_sink : T) :
    SinkTask T R → T × Option (CallId × R)
  | .log msg => (default_log_call msg real_sink, none)
  | .call id func => ((func real_sink).1, some (id, (func real_sink).2))

structure Sink (T R : Type) where
  created : Bool
  /-- Null before the sink is made and after `~Sink`. -/
  _real_sink : Option T
  _default_log_call : LogMessage → T → T
  _bg : Active (SinkTask T R)
  /-- The clients that hold a `shared_ptr` of their own. -/
  temps : Finset ClientId
  /-- `addSink` has returned a handle. -/
  handle : Bool

namespace Sink

/-- A sink that has not been made. -/
def unmade : Sink T R where
  created := false
  _real_sink := none
  _default_log_call := fun _ t => t
  _bg := .createActive
  temps := ∅
  handle := false

/-- `std::make_shared<Sink>` inside a client's `addSink`. -/
def make (real_sink : T) (call : LogMessage → T → T) (c : ClientId) : Sink T R where
  created := true
  _real_sink := some real_sink
  _default_log_call := call
  _bg := .createActive
  temps := {c}
  handle := false

def send (msg : LogMessage) (k : Sink T R) : Sink T R :=
  { k with _bg := k._bg.send (.work (.log msg)) }

/-- `spawn_task` on the sink's active object. -/
def async (id : CallId) (func : T → T × R) (k : Sink T R) : Sink T R :=
  { k with _bg := k._bg.send (.work (.call id func)) }

/-- `~Sink` up to the join: `~Active` sends its callback. -/
def close (k : Sink T R) : Sink T R := { k with _bg := k._bg.send .done }

/-- The calls that are still queued when `~Sink` destroys the queue. -/
def abandoned (k : Sink T R) : List CallId := callsOf (workOf k._bg.mq_)

/-- One turn of the sink's thread, with the result of a call it may have run. -/
def turn (k : Sink T R) : Option (Sink T R × Option (CallId × R)) :=
  match k._bg.func with
  | none =>
      if k._bg.done_ then k._bg.exit.map fun bg => ({ k with _bg := bg }, none)
      else k._bg.pop.map fun bg => ({ k with _bg := bg }, none)
  | some .done => some ({ k with _bg := k._bg.ret }, none)
  | some (.work task) => k._real_sink.map fun real_sink =>
      ({ k with
          _real_sink := some (task.run k._default_log_call real_sink).1
          _bg := k._bg.ret },
        (task.run k._default_log_call real_sink).2)

/-- The messages on which the log call has run, in order. -/
def logged (k : Sink T R) : List LogMessage := logsOf (workOf k._bg.executed)

/-- The messages forwarded to the sink, in order. -/
def forwarded (k : Sink T R) : List LogMessage := logsOf (workOf k._bg.sent)

/-- The calls sent to the sink, in order. -/
def called (k : Sink T R) : List CallId := callsOf (workOf k._bg.sent)

/-- The calls whose functions have run, in order. -/
def ran (k : Sink T R) : List CallId := callsOf (workOf k._bg.executed)

end Sink

/-! ## Work of either kind -/

@[simp] theorem logsOf_nil : logsOf ([] : List (SinkTask T R)) = [] := rfl

@[simp] theorem callsOf_nil : callsOf ([] : List (SinkTask T R)) = [] := rfl

@[simp] theorem logsOf_append (ts us : List (SinkTask T R)) :
    logsOf (ts ++ us) = logsOf ts ++ logsOf us := by
  simp [logsOf]

@[simp] theorem callsOf_append (ts us : List (SinkTask T R)) :
    callsOf (ts ++ us) = callsOf ts ++ callsOf us := by
  simp [callsOf]

@[simp] theorem logsOf_log (msg : LogMessage) :
    logsOf [(SinkTask.log msg : SinkTask T R)] = [msg] := rfl

@[simp] theorem logsOf_call (id : CallId) (func : T → T × R) :
    logsOf [SinkTask.call id func] = [] := rfl

@[simp] theorem callsOf_log (msg : LogMessage) :
    callsOf [(SinkTask.log msg : SinkTask T R)] = [] := rfl

@[simp] theorem callsOf_call (id : CallId) (func : T → T × R) :
    callsOf [SinkTask.call id func] = [id] := rfl

namespace Sink

/-! ## What the operations send -/

@[simp] theorem forwarded_send (msg : LogMessage) (k : Sink T R) :
    (k.send msg).forwarded = k.forwarded ++ [msg] := by
  simp [forwarded, send]

@[simp] theorem forwarded_async (id : CallId) (func : T → T × R) (k : Sink T R) :
    (k.async id func).forwarded = k.forwarded := by
  simp [forwarded, async]

@[simp] theorem forwarded_close (k : Sink T R) : k.close.forwarded = k.forwarded := by
  simp [forwarded, close]

@[simp] theorem called_send (msg : LogMessage) (k : Sink T R) :
    (k.send msg).called = k.called := by
  simp [called, send]

@[simp] theorem called_async (id : CallId) (func : T → T × R) (k : Sink T R) :
    (k.async id func).called = k.called ++ [id] := by
  simp [called, async]

@[simp] theorem called_close (k : Sink T R) : k.close.called = k.called := by
  simp [called, close]

/-- A turn of the thread sends nothing, and touches nothing but queue and real sink. -/
theorem turn_frame {k k' : Sink T R} {out : Option (CallId × R)} (h : k.turn = some (k', out)) :
    k'.created = k.created ∧ k'.temps = k.temps ∧ k'.handle = k.handle ∧
      k'._bg.sent = k._bg.sent := by
  unfold turn at h
  split at h
  · split at h
    all_goals
      obtain ⟨bg, hbg, heq⟩ := Option.map_eq_some_iff.mp h
      obtain ⟨rfl, -⟩ := Prod.mk.inj heq
    · exact ⟨rfl, rfl, rfl, Active.sent_exit hbg⟩
    · exact ⟨rfl, rfl, rfl, Active.sent_pop hbg⟩
  · obtain ⟨rfl, -⟩ := Prod.mk.inj (Option.some.inj h)
    exact ⟨rfl, rfl, rfl, Active.sent_ret _⟩
  · obtain ⟨real_sink, -, heq⟩ := Option.map_eq_some_iff.mp h
    obtain ⟨rfl, -⟩ := Prod.mk.inj heq
    exact ⟨rfl, rfl, rfl, Active.sent_ret _⟩

/-- What the thread has called stays called. -/
theorem executed_turn {k k' : Sink T R} {out : Option (CallId × R)}
    (h : k.turn = some (k', out)) : k._bg.executed <+: k'._bg.executed := by
  unfold turn at h
  split at h
  · split at h
    all_goals
      obtain ⟨bg, hbg, heq⟩ := Option.map_eq_some_iff.mp h
      obtain ⟨rfl, -⟩ := Prod.mk.inj heq
    · obtain ⟨-, -, -, rfl⟩ := Active.exit_eq_some hbg
      exact List.prefix_rfl
    · obtain ⟨-, -, -, -, -, rfl⟩ := Active.pop_eq_some hbg
      exact List.prefix_rfl
  · obtain ⟨rfl, -⟩ := Prod.mk.inj (Option.some.inj h)
    exact List.prefix_append _ _
  · obtain ⟨real_sink, -, heq⟩ := Option.map_eq_some_iff.mp h
    obtain ⟨rfl, -⟩ := Prod.mk.inj heq
    exact List.prefix_append _ _

/-- A log call has run only on messages forwarded, in their order. -/
theorem logged_isPrefix (k : Sink T R) : k.logged <+: k.forwarded := by
  obtain ⟨rest, hrest⟩ := k._bg.executed_isPrefix
  exact ⟨logsOf (workOf rest), by simp [logged, forwarded, ← hrest]⟩

/-- The log call has run on every message forwarded. -/
def Flushed (k : Sink T R) : Prop := k.logged = k.forwarded

theorem Flushed.turn {k k' : Sink T R} {out : Option (CallId × R)} (h : k.Flushed)
    (hturn : k.turn = some (k', out)) : k'.Flushed := by
  have hforwarded : k'.forwarded = k.forwarded := by
    rw [forwarded, (turn_frame hturn).2.2.2, forwarded]
  obtain ⟨rest, hrest⟩ := executed_turn hturn
  have hgrows : k.logged <+: k'.logged := ⟨logsOf (workOf rest), by simp [logged, ← hrest]⟩
  have hbound := k'.logged_isPrefix
  rw [hforwarded, ← h] at hbound
  rw [Flushed, hforwarded, ← h]
  exact hbound.eq_of_length_le hgrows.length_le

theorem flushed_of_executed {k : Sink T R} (h : k._bg.executed = k._bg.sent) : k.Flushed := by
  rw [Flushed, logged, forwarded, h]

theorem flushed_of_forwarded {k : Sink T R} (h : k.forwarded = []) : k.Flushed := by
  have hprefix := k.logged_isPrefix
  rw [h] at hprefix
  rw [Flushed, h, List.prefix_nil.mp hprefix]

end Sink
end G3log
