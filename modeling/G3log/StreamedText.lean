import G3log.FatalHook
import G3log.LogStatements
import G3log.MessageCopies

/-!
# The text of a log statement

What is streamed into a `LogCapture` ends up in the message that the worker gets. The
destructor passes the text on as a C string, so the message has it up to the first NUL.

## Main definitions

* `LogCapture.streamAll` -- insertions into the stream of a capture.
* `LogCapture.destroy` -- the destructor, as the log call of a thread.
* `ArrivesComplete` -- the message in the queue of the worker has all of the text.
-/

namespace G3log

open Time

namespace LogCapture

/-- `stream() << text << …`, with a `std::string` each time. -/
def streamAll (texts : List (List Char)) (c : LogCapture) : LogCapture :=
  texts.foldl (fun c text => c.stream text) c

/-- The destructor: `saveMessage` makes the message and hands it to `pushMessageToLogger`, or
to `fatalCall` behind a hook that does nothing. -/
def destroy (now : Int) (c : LogCapture) : LoggerOp :=
  if wasFatal c._level then
    .LOG_FATAL { (c.message now).append c._stack_trace with _signal_id := c._fatal_signal }
  else .LOG (c.message now)

theorem streamAll_eq (texts : List (List Char)) (c : LogCapture) :
    c.streamAll texts = { c with _stream := c._stream ++ texts.flatten } := by
  induction texts generalizing c with
  | nil => simp [streamAll]
  | cons text texts ih =>
      have hcons : c.streamAll (text :: texts) = (c.stream text).streamAll texts := rfl
      rw [hcons, ih, List.flatten_cons, ← List.append_assoc]
      rfl

theorem message_message (now : Int) (c : LogCapture) :
    (c.message now).message.toList = cstr c._stream := by
  simp [LogCapture.message, LogMessage.new, LogMessage.append, LogMessage.setExpression,
    LogMessage.message]

end LogCapture

/-- A text and its C string are the same if there is no NUL in it. -/
theorem cstr_eq_self_iff (text : List Char) : cstr text = text ↔ '\x00' ∉ text := by
  constructor
  · intro h hmem
    rw [← h] at hmem
    simpa using List.mem_takeWhile_imp hmem
  · exact cstr_eq_self

/-- The steps of a thread that logs: to the test, through it, to the queue and back. -/
def Process.logCall (t : ThreadId) (σ : Process) : Option Process := do
  let σ ← σ.step (.thread t)
  let σ ← σ.step (.thread t)
  let σ ← σ.step (.thread t)
  σ.step (.thread t)

/-- A log call with an active worker puts the message into the queue of that worker. -/
theorem logCall_eq {σ : Process} {t : ThreadId} {w : WorkerId} {msg : LogMessage}
    {rest : List LoggerOp} (hrun : σ.exited = false) (hactive : σ.g_logger_instance = some w)
    (hthread : σ.threads t = ⟨.LOG msg :: rest, .idle⟩) :
    σ.logCall t = some ((σ.sendBg w (.work (.bgSave msg))).enter t rest .idle) := by
  simp [Process.logCall, Process.step, Process.threadStep, Process.begin, LoggerPc.resume, hrun,
    hactive, hthread]

/-- The message that the log call enqueues on the worker has the streamed texts, one behind
the other. -/
def ArrivesComplete (σ : Process) (t : ThreadId) (w : WorkerId) (texts : List (List Char)) :
    Prop :=
  ∃ σ' msg, σ.logCall t = some σ' ∧
    (σ'.workers w)._bg = (σ.workers w)._bg.send (.work (.bgSave msg)) ∧
    msg.message.toList = texts.flatten

section
variable {σ : Process} {t : ThreadId} {w : WorkerId} {texts : List (List Char)}
  {file function expression : String} {line : Int} {level : LEVELS} {now : Int}
  {rest : List LoggerOp}

/-- A streamed text arrives complete if and only if there is no NUL in it. -/
theorem arrivesComplete_iff (hlevel : wasFatal level = false) (hrun : σ.exited = false)
    (hactive : σ.g_logger_instance = some w)
    (hthread : σ.threads t =
      ⟨((LogCapture.new "" file line function level expression).streamAll texts).destroy now ::
        rest, .idle⟩) :
    ArrivesComplete σ t w texts ↔ '\x00' ∉ texts.flatten := by
  rw [LogCapture.streamAll_eq] at hthread
  set c : LogCapture := { LogCapture.new "" file line function level expression with
    _stream := (LogCapture.new "" file line function level expression)._stream ++ texts.flatten }
    with hc
  have hstream : c._stream = texts.flatten := rfl
  have hdestroy : c.destroy now = .LOG (c.message now) := if_neg (by simp [hc, LogCapture.new,
    hlevel])
  rw [hdestroy] at hthread
  have hcall := logCall_eq hrun hactive hthread
  have htext := LogCapture.message_message now c
  rw [hstream] at htext
  rw [← cstr_eq_self_iff]
  constructor
  · intro h
    obtain ⟨σ', msg, hσ', hbg, hmsg⟩ := h
    obtain rfl := Option.some.inj (hcall.symm.trans hσ')
    have hmq := congrArg Active.mq_ hbg
    have heq : c.message now = msg := by simpa [Active.send] using hmq
    rw [← htext, heq]
    exact hmsg
  · intro h
    exact ⟨_, c.message now, hcall, by simp, htext.trans h⟩

end

/-- A process with an active worker and one thread that is about to log. -/
def aboutToLog (texts : List (List Char)) : Process :=
  { Process.start fun _ =>
      [((LogCapture.new "" "main.cpp" 1 "main" G3LOG_INFO).streamAll texts).destroy 0] with
    g_logger_instance := some 0 }

theorem arrivesComplete_hello :
    ArrivesComplete (aboutToLog ["hel".toList, "lo".toList]) 0 0 ["hel".toList, "lo".toList] :=
  (arrivesComplete_iff (by decide) rfl rfl rfl).mpr (by decide)

/-- Two halves of a text with a NUL between them. -/
theorem nul_cuts_text :
    ((LogCapture.new "" "main.cpp" 1 "main" G3LOG_INFO).streamAll
        ["a\x00".toList, "b".toList]).destroy 0 =
      .LOG { LogMessage.new 0 "main.cpp" 1 "main" G3LOG_INFO with _message := "a" } ∧
    ¬ ∀ (σ : Process) (t : ThreadId) (w : WorkerId) (texts : List (List Char))
      (file function expression : String) (line : Int) (level : LEVELS) (now : Int)
      (rest : List LoggerOp), wasFatal level = false → σ.exited = false →
        σ.g_logger_instance = some w →
        σ.threads t =
          ⟨((LogCapture.new "" file line function level expression).streamAll texts).destroy now ::
            rest, .idle⟩ → ArrivesComplete σ t w texts := by
  have hlost : ((LogCapture.new "" "main.cpp" 1 "main" G3LOG_INFO).streamAll
        ["a\x00".toList, "b".toList]).destroy 0 =
      .LOG { LogMessage.new 0 "main.cpp" 1 "main" G3LOG_INFO with _message := "a" } := by
    decide +kernel
  refine ⟨hlost, ?_⟩
  intro h
  obtain ⟨σ', msg, hσ', hbg, hmsg⟩ := h (aboutToLog ["a\x00".toList, "b".toList]) 0 0
    ["a\x00".toList, "b".toList] "main.cpp" "main" "" 1 G3LOG_INFO 0 [] (by decide) rfl rfl rfl
  have hthread : (aboutToLog ["a\x00".toList, "b".toList]).threads 0 =
      ⟨[.LOG { LogMessage.new 0 "main.cpp" 1 "main" G3LOG_INFO with _message := "a" }],
        .idle⟩ := congrArg (LoggerThread.mk [·] .idle) hlost
  have hcall := logCall_eq (w := 0) rfl rfl hthread
  obtain rfl := Option.some.inj (hcall.symm.trans hσ')
  have hmq := congrArg Active.mq_ hbg
  have heq : { LogMessage.new 0 "main.cpp" 1 "main" G3LOG_INFO with _message := "a" } = msg := by
    simpa [Active.send] using hmq
  rw [← heq] at hmsg
  revert hmsg
  decide +kernel

end G3log
