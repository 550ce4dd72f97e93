import G3log.Active
import G3log.Lib.Fields
import G3log.Lib.Transition

/-!
# How an active object drains

Any number of threads send callbacks to an `Active`, and so do the callbacks it executes,
while its own thread runs and its destructor sends the callback that ends the loop and
joins. The state keeps what has been pushed, in the order of the pushes, besides what has
been executed. Callbacks may be sent behind the one of the destructor, as long as the
object is there.

## Main definitions

* `Draining`, `Draining.step`, `draining` -- the object, its threads and its destructor.
* `Draining.Drained` -- what holds of the executed callbacks, and `drains_in_order`, at any time.
* `run_returns` -- the loop ends, once the destructor has sent its callback.
-/

namespace G3log

open Transition Fields

/-- Where `~Active` is. -/
inductive ActiveDestructor
  | notCalled
  /-- At `thd_.join()`. -/
  | join
  | completed
  deriving DecidableEq

/-- An active object in use. -/
structure Draining (α : Type) where
  active : Active α
  /-- What has been pushed to the queue, in order. -/
  pushed : List (Callback α)
  destructor : ActiveDestructor

/-- A step of a thread that sends, of the callback that is being executed, of `run`, or of the
destructor. -/
inductive DrainAction (ι α : Type)
  | send (sender : ι) (task : α)
  | sendFromCallback (task : α)
  | run
  | destroy
  | join

namespace Draining
variable {ι α : Type}

def start : Draining α := ⟨.createActive, [], .notCalled⟩

/-- `shared_queue::push` -/
def push (c : Callback α) (σ : Draining α) : Draining α :=
  { σ with active := σ.active.send c, pushed := σ.pushed ++ [c] }

/-- The next step of `run`: the callback returns, or the loop ends, or a callback is taken. -/
def runStep (σ : Draining α) : Option (Draining α) :=
  if σ.active.func.isSome then some { σ with active := σ.active.ret }
  else if σ.active.done_ then σ.active.exit.map fun a => { σ with active := a }
  else σ.active.pop.map fun a => { σ with active := a }

def step (σ : Draining α) : DrainAction ι α → Option (Draining α)
  | .send _ task => if σ.destructor = .completed then none else some (σ.push (.work task))
  | .sendFromCallback task =>
      match σ.active.func with
      | some (.work _) => some (σ.push (.work task))
      | _ => none
  | .run => σ.runStep
  | .destroy =>
      if σ.destructor = .notCalled then some { σ.push .done with destructor := .join } else none
  | .join =>
      if σ.destructor = .join ∧ σ.active.finished = true then
        some { σ with destructor := .completed }
      else none

end Draining

/-- Any interleaving of the senders, the loop and the destructor. -/
def draining (ι α : Type) : System (Draining α) (DrainAction ι α) where
  Start σ := σ = .start
  step := Draining.step

namespace Draining
variable {ι α : Type} {σ σ' : Draining α}

/-- What holds at any time: the callbacks are executed in the order they were pushed, and the
loop ends with the one of the destructor, which comes once. With it, what was pushed before
has been executed once, and what was pushed behind it never is. -/
structure Drained (σ : Draining α) : Prop where
  order : σ.active.executed ++ σ.active.func.toList <+: σ.pushed
  destructor : .done ∈ σ.pushed ↔ σ.destructor ≠ .notCalled
  returns : σ.active.finished = true → .done ∈ σ.active.executed
  before : ∀ front back, σ.pushed = front ++ .done :: back →
    .done ∈ σ.active.executed → σ.active.executed = front ++ [.done]
  behind : ∀ front back, σ.pushed = front ++ .done :: back →
    σ.active.executed ++ σ.active.func.toList <+: front ++ [.done]

/-! ## The invariant -/

/-- The queue holds what was pushed and not taken, and the callback of the destructor is
pushed once. -/
structure Inv (σ : Draining α) : Prop where
  pushed : σ.pushed = σ.active.sent
  sound : σ.active.Sound
  notCalled : σ.destructor = .notCalled → .done ∉ σ.pushed
  called : σ.destructor ≠ .notCalled →
    ∃ front back, σ.pushed = front ++ .done :: back ∧ .done ∉ front ∧ .done ∉ back

theorem inv_start : Inv (start : Draining α) := by
  constructor
  · rfl
  · exact Active.sound_createActive
  · intro _
    simp [start]
  · intro h
    exact absurd rfl h

/-- Work is pushed at the end. -/
theorem Inv.push (h : Inv σ) (task : α) : Inv (σ.push (.work task)) := by
  constructor
  · simp [Draining.push, h.pushed]
  · exact h.sound.send _
  · intro hnot
    simpa [Draining.push] using h.notCalled hnot
  · intro hcalled
    obtain ⟨front, back, hpushed, hfront, hback⟩ := h.called hcalled
    refine ⟨front, back ++ [.work task], ?_, hfront, by simp [hback]⟩
    simp [Draining.push, hpushed]

theorem Inv.destroy (h : Inv σ) (hdestructor : σ.destructor = .notCalled) :
    Inv { σ.push .done with destructor := .join } := by
  constructor
  · simp [Draining.push, h.pushed]
  · exact h.sound.send _
  · intro hnot
    cases hnot
  · intro _
    exact ⟨σ.pushed, [], rfl, h.notCalled hdestructor, by simp⟩

/-- A step of the loop moves callbacks on, and changes nothing else. -/
theorem Inv.runStep (h : Inv σ) (hstep : σ.runStep = some σ') : Inv σ' := by
  unfold Draining.runStep at hstep
  split at hstep
  · next hfunc =>
      obtain ⟨c, hc⟩ := Option.isSome_iff_exists.mp hfunc
      obtain rfl := Option.some.inj hstep
      exact ⟨h.pushed.trans (Active.sent_ret _).symm, h.sound.ret hc, h.notCalled, h.called⟩
  · split at hstep
    · obtain ⟨a, ha, rfl⟩ := Option.map_eq_some_iff.mp hstep
      exact ⟨h.pushed.trans (Active.sent_exit ha).symm, h.sound.exit ha, h.notCalled, h.called⟩
    · obtain ⟨a, ha, rfl⟩ := Option.map_eq_some_iff.mp hstep
      exact ⟨h.pushed.trans (Active.sent_pop ha).symm, h.sound.pop ha, h.notCalled, h.called⟩

theorem Inv.step (h : Inv σ) {a : DrainAction ι α} (hstep : σ.step a = some σ') : Inv σ' := by
  cases a with
  | send sender task =>
      simp only [Draining.step] at hstep
      split at hstep
      · cases hstep
      · obtain rfl := Option.some.inj hstep
        exact h.push task
  | sendFromCallback task =>
      simp only [Draining.step] at hstep
      split at hstep
      · obtain rfl := Option.some.inj hstep
        exact h.push task
      · cases hstep
  | run => exact h.runStep hstep
  | destroy =>
      simp only [Draining.step] at hstep
      split at hstep
      · next hnot =>
          obtain rfl := Option.some.inj hstep
          exact h.destroy hnot
      · cases hstep
  | join =>
      simp only [Draining.step] at hstep
      split at hstep
      · next hjoin =>
          obtain rfl := Option.some.inj hstep
          have hcalled : σ.destructor ≠ .notCalled := by simp [hjoin.1]
          constructor
          · exact h.pushed
          · exact h.sound
          · intro hnot
            cases hnot
          · intro _
            exact h.called hcalled
      · cases hstep

theorem inv (h : (draining ι α).Reachable σ) : Inv σ := by
  apply h.invariant
  · intro σ hσ
    rw [hσ]
    exact inv_start
  · intro σ a σ' _ _ hinv hstep
    exact hinv.step hstep

/-! ## What is executed -/

/-- The callback of the destructor is pushed once. -/
theorem Inv.done_notMem (h : Inv σ) {front back : List (Callback α)}
    (hpushed : σ.pushed = front ++ .done :: back) : .done ∉ front := by
  by_cases hnot : σ.destructor = .notCalled
  · exact absurd (by simp [hpushed]) (h.notCalled hnot)
  · obtain ⟨front', back', hpushed', hfront', hback'⟩ := h.called hnot
    intro hmem
    obtain ⟨front₁, rest, hfront, hfront₁⟩ := List.eq_append_cons_of_mem hmem
    rw [hpushed', hfront, List.append_assoc, List.cons_append] at hpushed
    have hrest := ((append_cons_inj_front hfront' hfront₁).mp hpushed).2
    exact hback' (by simp [hrest])

theorem Inv.drained (h : Inv σ) : Drained σ := by
  have horder : σ.active.executed ++ σ.active.func.toList <+: σ.pushed := by
    rw [h.pushed, Active.sent]
    exact List.prefix_append _ _
  have hbefore : ∀ front back, σ.pushed = front ++ Callback.done :: back →
      Callback.done ∈ σ.active.executed → σ.active.executed = front ++ [Callback.done] := by
    intro front back hpushed hdone
    obtain ⟨cs, hcs, hnot⟩ := h.sound.last (h.sound.done_iff.mpr hdone)
    have hsent : cs ++ Callback.done :: (σ.active.func.toList ++ σ.active.mq_) =
        front ++ Callback.done :: back := by
      rw [← hpushed, h.pushed, Active.sent, hcs]
      simp
    rw [hcs, ((append_cons_inj_front hnot (h.done_notMem hpushed)).mp hsent).1]
  constructor
  · exact horder
  · constructor
    · intro hdone hnot
      exact h.notCalled hnot hdone
    · intro hcalled
      obtain ⟨front, back, hpushed, -, -⟩ := h.called hcalled
      simp [hpushed]
  · intro hfinished
    exact h.sound.done_iff.mp (h.sound.done_of_finished hfinished)
  · exact hbefore
  · intro front back hpushed
    have hfront : front ++ [Callback.done] <+: σ.pushed := ⟨back, by simp [hpushed]⟩
    by_cases hdone : Callback.done ∈ σ.active.executed
    · rw [h.sound.func_of_done (h.sound.done_iff.mpr hdone), hbefore front back hpushed hdone]
      simp
    · -- what is executed and what is being executed end before the callback or with it
      apply List.prefix_of_prefix_length_le horder hfront
      by_contra hlt
      have hshort : front ++ [Callback.done] <+: σ.active.executed := by
        apply List.prefix_of_prefix_length_le hfront ((List.prefix_append _ _).trans horder)
        have hle : σ.active.func.toList.length ≤ 1 := by cases σ.active.func <;> simp
        simp only [List.length_append, List.length_singleton] at hlt ⊢
        omega
      exact hdone (hshort.subset (by simp))

/-- An active object drains in order, whatever is sent to it. -/
theorem drains_in_order (h : (draining ι α).Reachable σ) : Drained σ := (inv h).drained

/-- A callback that sends another one behind the destructor's. -/
theorem drains_in_order_late : ∃ σ : Draining ℕ, (draining ℕ ℕ).Reachable σ ∧ Drained σ ∧
    σ.active.finished = true ∧ σ.active.mq_ = [.work 2] := by
  have hrun : ((draining ℕ ℕ).runBy (fun _ _ => true) start [.send 0 1, .run, .destroy,
      .sendFromCallback 2, .run, .run, .run, .run]).any
      (fun σ => σ.active.finished && decide (σ.active.mq_ = [.work 2])) = true := by decide
  obtain ⟨σ, hσ, hend⟩ := System.exists_reachableBy rfl hrun
  simp only [Bool.and_eq_true, decide_eq_true_eq] at hend
  exact ⟨σ, hσ.reachable, drains_in_order hσ.reachable, hend.1, hend.2⟩

/-! ## The loop ends -/

/-- The destructor waits for the loop, which has come to some place before its callback. -/
structure Ending (front : List (Callback α)) (σ : Draining α) : Prop where
  inv : Inv σ
  destructor : σ.destructor = .join
  finished : σ.active.finished = false
  pushed : ∃ back, σ.pushed = front ++ .done :: back

/-- How many steps the loop is from its end, at most. -/
def toEnd (front : List (Callback α)) (σ : Draining α) : ℕ :=
  2 * (front.length + 1 - σ.active.executed.length) - σ.active.func.toList.length

theorem Ending.push {front : List (Callback α)} (h : Ending front σ) (task : α) :
    Ending front (σ.push (.work task)) := by
  obtain ⟨back, hback⟩ := h.pushed
  refine ⟨h.inv.push task, h.destructor, h.finished, back ++ [.work task], ?_⟩
  simp [Draining.push, hback]

/-- A step of the loop takes it nearer to its end, or is the last one. -/
theorem Ending.runStep {front : List (Callback α)} (h : Ending front σ)
    (hstep : σ.runStep = some σ') :
    Ending front σ' ∧ toEnd front σ' < toEnd front σ ∨ σ'.active.finished = true := by
  obtain ⟨back, hback⟩ := h.pushed
  have hinv := h.inv.runStep hstep
  have hle := (h.inv.drained.behind front back hback).length_le
  simp only [List.length_append, List.length_singleton] at hle
  unfold Draining.runStep at hstep
  split at hstep
  · next hfunc =>
      obtain ⟨c, hc⟩ := Option.isSome_iff_exists.mp hfunc
      obtain rfl := Option.some.inj hstep
      refine .inl ⟨⟨hinv, h.destructor, h.finished, back, hback⟩, ?_⟩
      simp only [hc, Option.toList_some, List.length_singleton] at hle
      simp only [toEnd, Active.ret, hc, Option.toList_some, Option.toList_none,
        List.length_append, List.length_singleton, List.length_nil]
      omega
  · next hfunc =>
      split at hstep
      · obtain ⟨a, ha, rfl⟩ := Option.map_eq_some_iff.mp hstep
        obtain ⟨-, -, -, rfl⟩ := Active.exit_eq_some ha
        exact .inr rfl
      · next hdone =>
          obtain ⟨a, ha, rfl⟩ := Option.map_eq_some_iff.mp hstep
          obtain ⟨c, rest, hnone, -, -, rfl⟩ := Active.pop_eq_some ha
          refine .inl ⟨⟨hinv, h.destructor, h.finished, back, hback⟩, ?_⟩
          have hbehind := (hinv.drained.behind front back hback).length_le
          simp only [List.length_append, List.length_singleton, Option.toList_some] at hbehind
          simp only [toEnd, hnone, Option.toList_some, Option.toList_none,
            List.length_singleton, List.length_nil]
          omega

theorem Ending.isSome_runStep {front : List (Callback α)} (h : Ending front σ) :
    σ.runStep.isSome = true := by
  obtain ⟨back, hback⟩ := h.pushed
  unfold Draining.runStep
  split
  · rfl
  · next hfunc =>
      have hnone : σ.active.func = none := by simpa using hfunc
      split
      · next hdone => simp [Active.exit, hnone, hdone, h.finished]
      · next hdone =>
          rw [Option.isSome_map]
          refine Active.isSome_pop hnone (Bool.eq_false_of_not_eq_true hdone) ?_
          intro hmq
          have hexecuted : σ.pushed = σ.active.executed := by
            rw [h.inv.pushed, Active.sent, hnone, hmq]
            simp
          apply hdone
          rw [h.inv.sound.done_iff, ← hexecuted, hback]
          simp

/-- Once the destructor has sent its callback, the loop ends, if its thread is scheduled. -/
theorem run_returns (E : (draining ι α).Execution fun _ _ => True)
    (hfair : E.WeaklyFair (· = .run)) (n : ℕ) (hn : (E.state n).destructor = .join) :
    ∃ k, n ≤ k ∧ (E.state k).active.finished = true := by
  by_cases hfinished : (E.state n).active.finished = true
  · exact ⟨n, le_refl n, hfinished⟩
  · have hinv := inv (E.reachableBy n)
    obtain ⟨front, back, hback, -, -⟩ := hinv.called (by simp [hn])
    have hending : Ending front (E.state n) :=
      ⟨hinv, hn, by simpa using hfinished, back, hback⟩
    refine System.Execution.eventually_of_measure (Q := fun σ => σ.active.finished = true) hfair
      (toEnd front) ?_ ?_ ?_ n hending
    · intro σ a σ' _ hσ hstep
      cases a with
      | send sender task =>
          simp only [draining, Draining.step, hσ.destructor, reduceCtorEq, if_false] at hstep
          obtain rfl := Option.some.inj hstep
          exact .inl ⟨hσ.push task, le_refl _⟩
      | sendFromCallback task =>
          simp only [draining, Draining.step] at hstep
          split at hstep
          · obtain rfl := Option.some.inj hstep
            exact .inl ⟨hσ.push task, le_refl _⟩
          · cases hstep
      | run => exact (hσ.runStep hstep).imp (fun h => ⟨h.1, h.2.le⟩) id
      | destroy => simp [draining, Draining.step, hσ.destructor] at hstep
      | join => simp [draining, Draining.step, hσ.finished] at hstep
    · intro σ a σ' _ hσ ha hstep
      rw [ha] at hstep
      exact (hσ.runStep hstep).imp And.right id
    · intro σ hσ
      exact ⟨.run, rfl, hσ.isSome_runStep⟩

end Draining
end G3log
