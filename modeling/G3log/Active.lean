import Mathlib

/-!
# The active object

An `Active` owns a thread that takes callbacks from a queue and calls them one after
the other, until the callback that its destructor sends has set `done_`. The state
keeps the callbacks that have been called, which the program does not store; with the
one being called and those waiting they make up everything that was ever sent.

## Main definitions

* `Active`, `Active.send`, `pop`, `ret`, `exit` -- the object and the steps of its thread.
* `Active.sent` -- all callbacks sent, in order.
* `Active.Sound` -- what the loop of the thread keeps.
* `Active.Closed` -- the destructor's callback was sent, and nothing after it.
-/

namespace G3log

/-- A callback: work that was sent, or the one that `~Active` sends. -/
inductive Callback (α : Type*)
  | work (task : α)
  | done
  deriving DecidableEq

/-- The work among some callbacks. -/
def workOf {α : Type*} (cs : List (Callback α)) : List α :=
  cs.filterMap fun
    | .work task => some task
    | .done => none

/-- An active object, with the callbacks its thread has called so far. -/
structure Active (α : Type*) where
  executed : List (Callback α)
  /-- The callback that is being called. -/
  func : Option (Callback α)
  mq_ : List (Callback α)
  done_ : Bool
  /-- `run` has returned, so the thread can be joined. -/
  finished : Bool

namespace Active
variable {α : Type*}

def createActive : Active α := ⟨[], none, [], false, false⟩

def send (msg_ : Callback α) (a : Active α) : Active α := { a with mq_ := a.mq_ ++ [msg_] }

/-- The head of the loop: wait for a callback and take it. -/
def pop (a : Active α) : Option (Active α) :=
  match a.func, a.done_, a.mq_ with
  | none, false, c :: rest => some { a with func := some c, mq_ := rest }
  | _, _, _ => none

/-- The callback returns. The one of the destructor has set `done_`. -/
def ret (a : Active α) : Active α :=
  { a with
    executed := a.executed ++ a.func.toList
    done_ := a.done_ || (match a.func with | some .done => true | _ => false)
    func := none }

/-- The loop ends and the thread with it. -/
def exit (a : Active α) : Option (Active α) :=
  if a.func.isNone && a.done_ && !a.finished then some { a with finished := true } else none

/-- Everything sent to the object, in order. -/
def sent (a : Active α) : List (Callback α) := a.executed ++ a.func.toList ++ a.mq_

/-! ## Work -/

@[simp] theorem workOf_nil : workOf ([] : List (Callback α)) = [] := rfl

@[simp] theorem workOf_append (cs ds : List (Callback α)) :
    workOf (cs ++ ds) = workOf cs ++ workOf ds := by
  simp [workOf]

@[simp] theorem workOf_work (task : α) : workOf [Callback.work task] = [task] := rfl

@[simp] theorem workOf_done : workOf [(Callback.done : Callback α)] = [] := rfl

theorem mem_workOf {cs : List (Callback α)} {task : α} :
    task ∈ workOf cs ↔ .work task ∈ cs := by
  simp only [workOf, List.mem_filterMap]
  constructor
  · rintro ⟨c, hc, htask⟩
    cases c with
    | work task' => obtain rfl : task' = task := by simpa using htask
                    exact hc
    | done => simp at htask
  · exact fun h => ⟨_, h, rfl⟩

/-! ## What is sent -/

@[simp] theorem sent_createActive : (createActive : Active α).sent = [] := rfl

@[simp] theorem sent_send (c : Callback α) (a : Active α) : (a.send c).sent = a.sent ++ [c] := by
  simp [sent, send]

@[simp] theorem executed_send (c : Callback α) (a : Active α) :
    (a.send c).executed = a.executed := rfl

@[simp] theorem func_send (c : Callback α) (a : Active α) : (a.send c).func = a.func := rfl

@[simp] theorem finished_send (c : Callback α) (a : Active α) :
    (a.send c).finished = a.finished := rfl

/-- What taking a callback does. -/
theorem pop_eq_some {a a' : Active α} (h : a.pop = some a') :
    ∃ c rest, a.func = none ∧ a.done_ = false ∧ a.mq_ = c :: rest ∧
      a' = { a with func := some c, mq_ := rest } := by
  unfold pop at h
  split at h
  · exact ⟨_, _, ‹_›, ‹_›, ‹_›, (Option.some.inj h).symm⟩
  · simp at h

theorem sent_pop {a a' : Active α} (h : a.pop = some a') : a'.sent = a.sent := by
  obtain ⟨c, rest, hfunc, -, hmq, rfl⟩ := pop_eq_some h
  simp [sent, hfunc, hmq]

@[simp] theorem sent_ret (a : Active α) : a.ret.sent = a.sent := by simp [sent, ret]

theorem exit_eq_some {a a' : Active α} (h : a.exit = some a') :
    a.func = none ∧ a.done_ = true ∧ a.finished = false ∧ a' = { a with finished := true } := by
  unfold exit at h
  split at h
  · next hc =>
      simp only [Bool.and_eq_true, Option.isNone_iff_eq_none, Bool.not_eq_true'] at hc
      exact ⟨hc.1.1, hc.1.2, hc.2, (Option.some.inj h).symm⟩
  · simp at h

theorem sent_exit {a a' : Active α} (h : a.exit = some a') : a'.sent = a.sent := by
  obtain ⟨-, -, -, rfl⟩ := exit_eq_some h
  rfl

/-- Callbacks are called in the order they were sent. -/
theorem executed_isPrefix (a : Active α) : a.executed <+: a.sent := by
  rw [sent, List.append_assoc]
  exact List.prefix_append _ _

theorem mem_sent_of_func {a : Active α} {c : Callback α} (h : a.func = some c) : c ∈ a.sent := by
  simp [sent, h]

/-! ## The loop -/

/-- What the loop of the thread keeps: it ends with the destructor's callback. -/
structure Sound (a : Active α) : Prop where
  not_mem : a.done_ = false → .done ∉ a.executed
  last : a.done_ = true → ∃ cs, a.executed = cs ++ [.done] ∧ .done ∉ cs
  func_of_done : a.done_ = true → a.func = none
  done_of_finished : a.finished = true → a.done_ = true

theorem sound_createActive : (createActive : Active α).Sound :=
  ⟨by simp [createActive], nofun, nofun, nofun⟩

theorem Sound.send {a : Active α} (h : a.Sound) (c : Callback α) : (a.send c).Sound :=
  ⟨h.not_mem, h.last, h.func_of_done, h.done_of_finished⟩

theorem Sound.pop {a a' : Active α} (h : a.Sound) (hpop : a.pop = some a') : a'.Sound := by
  obtain ⟨c, rest, hfunc, hdone, hmq, rfl⟩ := pop_eq_some hpop
  exact ⟨h.not_mem, h.last, fun hd => by simp [hdone] at hd, h.done_of_finished⟩

/-- While a callback runs, the destructor's has not run yet. -/
theorem Sound.done_of_func {a : Active α} (h : a.Sound) {c : Callback α} (hfunc : a.func = some c) :
    a.done_ = false := by
  by_contra hdone
  simp [h.func_of_done (Bool.eq_true_of_not_eq_false hdone)] at hfunc

theorem Sound.ret {a : Active α} (h : a.Sound) {c : Callback α} (hfunc : a.func = some c) :
    a.ret.Sound := by
  have hdone := h.done_of_func hfunc
  have hnot := h.not_mem hdone
  cases c with
  | work task =>
      refine ⟨fun _ => by simp [Active.ret, hfunc, hnot], ?_, fun _ => rfl, fun hf => ?_⟩
      · simp [Active.ret, hfunc, hdone]
      · simp [h.done_of_finished hf] at hdone
  | done =>
      refine ⟨?_, fun _ => ⟨a.executed, by simp [Active.ret, hfunc], hnot⟩, fun _ => rfl, ?_⟩
      · simp [Active.ret, hfunc]
      · simp [Active.ret, hfunc]

theorem Sound.exit {a a' : Active α} (h : a.Sound) (hexit : a.exit = some a') : a'.Sound := by
  obtain ⟨-, hdone, -, rfl⟩ := exit_eq_some hexit
  exact ⟨h.not_mem, h.last, h.func_of_done, fun _ => hdone⟩

theorem Sound.done_iff {a : Active α} (h : a.Sound) : a.done_ = true ↔ .done ∈ a.executed := by
  constructor
  · intro hdone
    obtain ⟨cs, hcs, -⟩ := h.last hdone
    simp [hcs]
  · intro hmem
    by_contra hdone
    exact h.not_mem (Bool.eq_false_of_not_eq_true hdone) hmem

/-- The work sent before the destructor's callback: all that is ever called. -/
def untilDone : List (Callback α) → List α
  | [] => []
  | .work task :: cs => task :: untilDone cs
  | .done :: _ => []

theorem untilDone_append {cs : List (Callback α)} (h : .done ∉ cs) (ds : List (Callback α)) :
    untilDone (cs ++ ds) = workOf cs ++ untilDone ds := by
  induction cs with
  | nil => rfl
  | cons c cs ih =>
      cases c with
      | work task =>
          have hcons : workOf (.work task :: cs) = task :: workOf cs := rfl
          rw [List.cons_append, untilDone, ih (by simp_all), hcons, List.cons_append]
      | done => simp at h

theorem untilDone_append_done {cs : List (Callback α)} (h : .done ∉ cs) (ds : List (Callback α)) :
    untilDone (cs ++ .done :: ds) = workOf cs := by
  simp [untilDone_append h, untilDone]

theorem untilDone_isPrefix_workOf (cs : List (Callback α)) : untilDone cs <+: workOf cs := by
  induction cs with
  | nil => simp [untilDone]
  | cons c cs ih =>
      cases c with
      | work task =>
          have hcons : workOf (.work task :: cs) = task :: workOf cs := rfl
          rw [hcons, untilDone]
          exact (List.prefix_cons_inj task).mpr ih
      | done => simp [untilDone]

theorem untilDone_prefix_append (cs ds : List (Callback α)) :
    untilDone cs <+: untilDone (cs ++ ds) := by
  by_cases h : .done ∈ cs
  · obtain ⟨front, back, rfl, hfront⟩ := List.eq_append_cons_of_mem h
    rw [List.append_assoc, List.cons_append, untilDone_append_done hfront,
      untilDone_append_done hfront]
  · rw [untilDone_append h]
    exact ⟨untilDone ds, by rw [← List.append_nil cs, untilDone_append h]; simp [untilDone]⟩

/-- The work called so far, with the one in progress, in the order of sending. -/
theorem Sound.work_isPrefix {a : Active α} (h : a.Sound) :
    workOf (a.executed ++ a.func.toList) <+: untilDone a.sent := by
  cases hdone : a.done_ with
  | false =>
      rw [sent, List.append_assoc, untilDone_append (h.not_mem hdone), workOf_append]
      refine List.prefix_append_right_inj _ |>.mpr ?_
      cases hfunc : a.func with
      | none => simp
      | some c => cases c <;> simp [untilDone, workOf]
  | true =>
      obtain ⟨cs, hcs, hnot⟩ := h.last hdone
      rw [sent, hcs, h.func_of_done hdone]
      simp [untilDone_append_done hnot]

/-- Once the loop has ended, the work sent before the destructor's callback was called. -/
theorem Sound.work_of_done {a : Active α} (h : a.Sound) (hdone : a.done_ = true) :
    workOf a.executed = untilDone a.sent := by
  obtain ⟨cs, hcs, hnot⟩ := h.last hdone
  rw [sent, hcs, h.func_of_done hdone]
  simp [untilDone_append_done hnot]

/-- The destructor has sent its callback, as the last one. -/
def Closed (a : Active α) : Prop := ∃ cs, a.sent = cs ++ [.done] ∧ .done ∉ cs

theorem Closed.done_mem {a : Active α} (h : a.Closed) : .done ∈ a.sent := by
  obtain ⟨cs, hcs, -⟩ := h
  simp [hcs]

/-- Once the destructor's callback has been called, everything sent has been. -/
theorem Closed.drained {a : Active α} (h : a.Closed) (hs : a.Sound) (hdone : a.done_ = true) :
    a.executed = a.sent ∧ a.func = none ∧ a.mq_ = [] := by
  obtain ⟨cs, hcs, hnot⟩ := h
  have hfunc := hs.func_of_done hdone
  obtain ⟨front, back, hexec⟩ := List.append_of_mem (hs.done_iff.mp hdone)
  have hmq : back ++ a.mq_ = [] := by
    have hsent : front ++ .done :: (back ++ a.mq_) = cs ++ [.done] := by
      rw [← hcs, sent, hexec, hfunc]; simp
    by_contra hne
    obtain ⟨ds, d, hds⟩ := List.eq_nil_or_concat' (back ++ a.mq_) |>.resolve_left hne
    rw [hds, ← List.cons_append, ← List.append_assoc] at hsent
    have := List.append_inj_left' hsent rfl
    exact hnot (by simp [← this])
  simp only [List.append_eq_nil_iff] at hmq
  simp [sent, hfunc, hmq.2]

/-- The thread waits for nothing while there are callbacks to take. -/
theorem isSome_pop {a : Active α} (hfunc : a.func = none) (hdone : a.done_ = false)
    (hmq : a.mq_ ≠ []) : a.pop.isSome := by
  obtain ⟨c, rest, hc⟩ := List.exists_cons_of_ne_nil hmq
  simp [pop, hfunc, hdone, hc]

end Active
end G3log
