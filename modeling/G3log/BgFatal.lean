import G3log.Delivery

/-!
# Fatal messages

`bgFatal` takes the logger away, forwards the fatal message, clears the sinks and ends
the process. Clearing is what flushes: whoever drops the last reference to a sink joins
its thread. Another reference anywhere, or another thread that is quicker to end the
process, and the flush is not what it was meant to be; a background thread that has gone
to sleep is one that a join waits for in vain.

## Main definitions

* `enqueuedAfter` -- the messages enqueued after a sink's add task.
* `fatal_is_last` -- the first fatal message is the last thing a sink gets.
-/

namespace G3log

open Transition Broadcast

variable {T R : Type}

/-- The messages enqueued after a sink's add task, among some tasks. -/
def enqueuedAfter (s : SinkId) (tasks : List WorkerTask) : List LogMessage :=
  published (after s (tasks.map WorkerTask.event))

/-! ## The first fatal message is the last one -/

/-- A run of tasks of which only the last may be fatal ends with the first fatal one. -/
theorem prefix_of_no_fatal {ts pre post : List WorkerTask} {msg : FatalMessage}
    (h : ts <+: pre ++ .bgFatal msg :: post) (hts : ∀ g, .bgFatal g ∉ ts.dropLast) :
    ts <+: pre ++ [.bgFatal msg] := by
  have hsplit : pre ++ .bgFatal msg :: post = (pre ++ [.bgFatal msg]) ++ post := by simp
  rw [hsplit] at h
  rcases List.prefix_or_prefix_of_prefix h (List.prefix_append _ _) with hle | hle
  · exact hle
  · obtain ⟨rest, hrest⟩ := hle
    rcases rest.eq_nil_or_concat with rfl | ⟨rest', last, rfl⟩
    · simp [← hrest]
    · refine absurd ?_ (hts msg)
      rw [← hrest]
      simp [← List.append_assoc]

theorem publishedFor_prefix_after (s : SinkId) (es : List (Event SinkId LogMessage)) :
    publishedFor s es <+: published (after s es) :=
  published_isPrefix (List.takeWhile_prefix _)

theorem enqueuedAfter_concat (s : SinkId) (pre : List WorkerTask) (msg : FatalMessage) :
    enqueuedAfter s (pre ++ [.bgFatal msg]) <+: enqueuedAfter s pre ++ [msg.exitNotice] := by
  rw [enqueuedAfter, enqueuedAfter, List.map_append]
  by_cases hs : (pre.map WorkerTask.event).any (isSubscribe s) = true
  · rw [after_append_of_any hs]
    simp [published, WorkerTask.event]
  · rw [after_append_of_forall (by simpa using hs)]
    simp [after, WorkerTask.event, isSubscribe, published]

/-- Before the task in progress there is no fatal one. -/
theorem noFatal_dropLast {bg : Active WorkerTask} {pc : WorkerPc} (h : WorkerOk bg pc)
    (msg : FatalMessage) : .bgFatal msg ∉ (workOf (bg.executed ++ bg.func.toList)).dropLast := by
  have hexecuted : .bgFatal msg ∉ workOf bg.executed :=
    fun hmem => h.noFatal msg (Active.mem_workOf.mp hmem)
  rw [Active.workOf_append]
  rcases bg.func with - | - | -
  · simpa using fun hmem => hexecuted (List.mem_of_mem_dropLast hmem)
  · simpa [workOf] using hexecuted
  · simpa [workOf] using fun hmem => hexecuted (List.mem_of_mem_dropLast hmem)

/-- The tasks executed and the one in progress go as far as the first fatal one. -/
theorem WorkerOk.tasks_isPrefix {bg : Active WorkerTask} {pc : WorkerPc} (h : WorkerOk bg pc)
    {pre post : List WorkerTask} {msg : FatalMessage}
    (hsent : workOf bg.sent = pre ++ .bgFatal msg :: post) :
    workOf (bg.executed ++ bg.func.toList) <+: pre ++ [.bgFatal msg] := by
  have htaken : workOf (bg.executed ++ bg.func.toList) <+: pre ++ .bgFatal msg :: post := by
    rw [← hsent, Active.sent, Active.workOf_append _ bg.mq_]
    exact List.prefix_append _ _
  exact prefix_of_no_fatal htaken (noFatal_dropLast h)

/-- A sink's log call has run on a prefix of the messages enqueued before a fatal message,
and then the notice for that one. -/
theorem logged_prefix_notice {σ : State T R} (h : (logWorker T R).Reachable σ)
    {pre post : List WorkerTask} {msg : FatalMessage}
    (hsent : workOf σ._bg.sent = pre ++ .bgFatal msg :: post) (s : SinkId) :
    (σ.sinks s).logged <+: enqueuedAfter s pre ++ [msg.exitNotice] := by
  have htasks := (owned h).worker.tasks_isPrefix hsent
  calc (σ.sinks s).logged <+: (σ.sinks s).forwarded := (σ.sinks s).logged_isPrefix
    _ <+: publishedFor s (events (σ._bg.executed ++ σ._bg.func.toList)) := forwarded_isPrefix h s
    _ <+: publishedFor s ((pre ++ [WorkerTask.bgFatal msg]).map WorkerTask.event) := by
        rw [events]
        exact publishedFor_isPrefix s (htasks.map WorkerTask.event)
    _ <+: enqueuedAfter s (pre ++ [.bgFatal msg]) := publishedFor_prefix_after s _
    _ <+: enqueuedAfter s pre ++ [msg.exitNotice] := enqueuedAfter_concat s pre msg

/-- In every reachable state a sink's log call has run on a prefix of the messages
enqueued after the sink was added and before a fatal message, and then that one, in all its
fields and with the exit notice behind its text. So nothing behind the first one in the
queue, no second fatal message either, gets to a sink. -/
theorem fatal_is_last {σ : State T R} (h : (logWorker T R).Reachable σ)
    {pre post : List WorkerTask} {msg : FatalMessage}
    (hsent : workOf σ._bg.sent = pre ++ .bgFatal msg :: post) (s : SinkId) :
    (σ.sinks s).logged <+: enqueuedAfter s pre ++ [msg.exitNotice] ∧ ∃ notice : String,
      msg.exitNotice = { msg.toLogMessage with _message := msg._message ++ notice } :=
  ⟨logged_prefix_notice h hsent s, msg.exitNotice_eq⟩

/-- One client adds a sink, one saves messages, two have a fatal event. -/
def panicCrew : ClientId → List (Op Unit Unit)
  | 1 => [.addSink () fun _ real_sink => real_sink]
  | 2 => [.save greeting, .save greeting]
  | 3 | 4 => [.fatal lastWords]
  | _ => []

/-- The sink is added, a message is enqueued, and then a fatal one. -/
def acceptRun : List Action :=
  addRun ++ [.client 2 0, .client 2 0, .client 3 0] ++ List.replicate 4 (.fatal (.client 3))

/-- The worker forwards both, and waits for the sink before the process ends. -/
def flushRun : List Action :=
  List.replicate 8 .worker ++ List.replicate 7 (.sink 0) ++ List.replicate 3 .worker

theorem fatal_is_last_lastWords : ∃ σ : State Unit Unit, σ.exited = true ∧
    workOf σ._bg.sent = [.addSink 0, .bgSave greeting] ++ .bgFatal lastWords :: [.bgSave greeting] ∧
      (σ.sinks 0).logged = [greeting, lastWords.exitNotice] ∧
      (σ.sinks 0).logged <+:
        enqueuedAfter 0 [.addSink 0, .bgSave greeting] ++ [lastWords.exitNotice] ∧
      ∃ notice : String, lastWords.exitNotice =
        { lastWords.toLogMessage with _message := lastWords._message ++ notice } := by
  have hrun : ((logWorker Unit Unit).runBy (fun _ _ => true) (init panicCrew true)
      (acceptRun ++ [Action.client 2 0, Action.client 2 0] ++ flushRun)).any (fun σ => σ.exited &&
        decide (workOf σ._bg.sent = [WorkerTask.addSink 0, WorkerTask.bgSave greeting] ++
          WorkerTask.bgFatal lastWords :: [WorkerTask.bgSave greeting]) &&
        decide ((σ.sinks 0).logged = [greeting, lastWords.exitNotice])) = true := by
    decide +kernel
  have hstart : (logWorker Unit Unit).Start (init panicCrew true) := ⟨panicCrew, true, rfl⟩
  obtain ⟨σ, hσ, hp⟩ := System.exists_reachableBy hstart hrun
  simp only [Bool.and_eq_true, decide_eq_true_eq] at hp
  exact ⟨σ, hp.1.1, hp.1.2, hp.2, fatal_is_last hσ.reachable hp.1.2 0⟩

end G3log
