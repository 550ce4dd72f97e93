import G3log.LogCapture
import G3log.LoggerInstance
import G3log.FileSinkHelper
import G3log.Time

/-!
# The hook before a fatal message

`saveMessage` runs a hook for a fatal message before it hands the message to `fatalCall`.
The hook is a global `std::function` that starts empty: `initializeLogging` sets it to one
that does nothing, as does `saveMessage` itself before it runs the hook, so that a hook that
logs a fatal message does not run again. The functions of the program, hooks and exit
handlers, make calls of their own, so the calls that are left to make form a stack.

## Main definitions

* `FatalOp`, `FatalState`, `FatalState.step` -- the calls of one thread and what they do.
* `FatalState.Kept` -- no fatal message is lost, and none meets an empty hook.
* `hookSetFirst` -- a hook is set before the first fatal message.
-/

namespace G3log

open Transition Time

abbrev FunctionId := ℕ

/-- A call of the program. -/
inductive FatalOp
  | initializeLogging (bgworker : Option WorkerId)
  | shutDownLogging
  | setFatalPreLoggingHook (pre_fatal_hook : FunctionId)
  | setFatalExitHandler (fatal_call : FunctionId)
  /-- The destructor of a capture, at a time. -/
  | saveMessage (capture : LogCapture) (now : Int)
  deriving DecidableEq

/-- A `std::function<void(void)>`. -/
inductive Hook
  | empty
  /-- `g_pre_fatal_hook_that_does_nothing` -/
  | doesNothing
  | function (id : FunctionId)
  deriving DecidableEq

/-- The value of `g_fatal_to_g3logworker_function_ptr`. -/
inductive ExitHandler
  | pushFatalMessageToLogger
  | function (id : FunctionId)
  deriving DecidableEq

/-- What is left to do: a call, or the rest of a `saveMessage` whose hook is running. Fatal
messages are numbered as they come. -/
inductive FatalTask
  | call (op : FatalOp)
  | hooked (n : ℕ) (message : LogMessage) (fatal_signal : Int) (stack_trace : String)
  deriving DecidableEq

/-- Where the process stands. -/
inductive FatalOutcome
  | running
  /-- `std::exit`, or the exit by a signal. -/
  | exited
  /-- In the loop of `pushFatalMessageToLogger`. -/
  | blocked
  /-- An empty function was called, in a destructor. -/
  | threw
  deriving DecidableEq

structure FatalState where
  g_logger_instance : Option WorkerId
  g_fatal_pre_logging_hook : Hook
  g_fatal_to_g3logworker_function_ptr : ExitHandler
  g_fatal_hook_recursive_counter : ℕ
  /-- The `static` in `saveMessage`. -/
  first_stack_trace : Option String
  stack : List FatalTask
  /-- How many fatal messages there were. -/
  raised : ℕ
  /-- The fatal messages that `fatalCall` was given. -/
  handed : List (ℕ × FatalMessage)
  /-- The other messages, which `pushMessageToLogger` was given. -/
  pushed : List LogMessage
  outcome : FatalOutcome
  deriving DecidableEq

def FatalState.start (program : List FatalOp) : FatalState where
  g_logger_instance := none
  g_fatal_pre_logging_hook := .empty
  g_fatal_to_g3logworker_function_ptr := .pushFatalMessageToLogger
  g_fatal_hook_recursive_counter := 0
  first_stack_trace := none
  stack := program.map .call
  raised := 0
  handed := []
  pushed := []
  outcome := .running

/-! ## The message of a capture -/

def LogMessage.splitFileName (str : String) : String :=
  String.ofList (afterLast (fun c => c == '(' || c == '/' || c == '\\') str.toList)

/-- The constructor, in the one thread there is. -/
def LogMessage.new (now : Int) (file : String) (line : Int) (function : String) (level : LEVELS) :
    LogMessage where
  _logDetailsToStringFunc := .DefaultLogDetailsToString
  _timestamp := now
  _call_thread_id := 0
  _file := splitFileName file
  _file_path := file
  _line := line
  _function := function
  _level := level
  _expression := ""
  _message := ""

def LogMessage.setExpression (expression : String) (m : LogMessage) : LogMessage :=
  { m with _expression := expression }

/-- The message that `saveMessage` makes of its arguments. The text comes as a C string. -/
def LogCapture.message (now : Int) (c : LogCapture) : LogMessage :=
  ((LogMessage.new now c._file c._line c._function c._level).append
    (String.ofList (cstr c._stream))).setExpression c._expression

/-- What is appended to a fatal message that followed another one. -/
def recursiveCrash (first_stack_trace : String) : String :=
  "\n\n\nWARNING\n" ++
    "A recursive crash detected. It is likely the hook set with " ++
    "'setFatalPreLoggingHook(...)' is responsible\n\n" ++
    "---First crash stacktrace: " ++ first_stack_trace ++ "\n---End of first stacktrace\n"

/-! ## The calls -/

namespace FatalState
variable (body : FunctionId → List FatalOp)

/-- Call a function, whose calls come before the rest. An empty one throws. -/
def callHook (hook : Hook) (rest : List FatalTask) (σ : FatalState) : FatalState :=
  match hook with
  | .empty => { σ with outcome := .threw }
  | .doesNothing => { σ with stack := rest }
  | .function id => { σ with stack := (body id).map .call ++ rest }

def initializeLogging (bgworker : Option WorkerId) (σ : FatalState) : FatalState :=
  match σ.g_logger_instance, bgworker with
  | none, some w =>
      { σ with
        g_logger_instance := some w
        g_fatal_pre_logging_hook := .doesNothing
        g_fatal_hook_recursive_counter := 0 }
  | _, _ => { σ with outcome := .exited }

/-- The first half of `saveMessage` for a fatal message: swap the hook and run it. -/
def saveFatal (capture : LogCapture) (now : Int) (rest : List FatalTask) (σ : FatalState) :
    FatalState :=
  let fatalhook := σ.g_fatal_pre_logging_hook
  let message := capture.message now
  callHook body fatalhook
    (.hooked σ.raised message capture._fatal_signal capture._stack_trace :: rest)
    { σ with
      g_fatal_pre_logging_hook := .doesNothing
      g_fatal_hook_recursive_counter := σ.g_fatal_hook_recursive_counter + 1
      first_stack_trace := some (σ.first_stack_trace.getD capture._stack_trace)
      raised := σ.raised + 1 }

/-- `fatalCall` -/
def fatalCall (n : ℕ) (message : FatalMessage) (rest : List FatalTask) (σ : FatalState) :
    FatalState :=
  let σ' := { σ with handed := σ.handed ++ [(n, message)], stack := rest }
  match σ.g_fatal_to_g3logworker_function_ptr with
  | .function id => { σ' with stack := (body id).map .call ++ rest }
  | .pushFatalMessageToLogger =>
      { σ' with outcome := if σ.g_logger_instance.isSome then .blocked else .exited }

/-- The second half, once the hook has returned. -/
def finishFatal (n : ℕ) (message : LogMessage) (fatal_signal : Int) (stack_trace : String)
    (rest : List FatalTask) (σ : FatalState) : FatalState :=
  let message := message.append stack_trace
  let message :=
    if σ.g_fatal_hook_recursive_counter > 1 then
      message.append (recursiveCrash (σ.first_stack_trace.getD ""))
    else message
  σ.fatalCall body n { message with _signal_id := fatal_signal } rest

def call (op : FatalOp) (rest : List FatalTask) (σ : FatalState) : FatalState :=
  match op with
  | .initializeLogging bgworker => { σ.initializeLogging bgworker with stack := rest }
  | .shutDownLogging => { σ with g_logger_instance := none, stack := rest }
  | .setFatalPreLoggingHook pre_fatal_hook =>
      { σ with g_fatal_pre_logging_hook := .function pre_fatal_hook, stack := rest }
  | .setFatalExitHandler fatal_call =>
      { σ with g_fatal_to_g3logworker_function_ptr := .function fatal_call, stack := rest }
  | .saveMessage capture now =>
      if wasFatal capture._level then σ.saveFatal body capture now rest
      else { σ with pushed := σ.pushed ++ [capture.message now], stack := rest }

/-- The next call or the rest of one. -/
def step (σ : FatalState) : Option FatalState :=
  if σ.outcome = .running then
    match σ.stack with
    | [] => none
    | .call op :: rest => some (σ.call body op rest)
    | .hooked n message fatal_signal stack_trace :: rest =>
        some (σ.finishFatal body n message fatal_signal stack_trace rest)
  else none

end FatalState

/-- A program of one thread, given the bodies of its functions. -/
def fatalRun (body : FunctionId → List FatalOp) (program : List FatalOp) :
    System FatalState Unit where
  Start σ := σ = .start program
  step σ _ := σ.step body

/-! ## No fatal message is lost -/

/-- The number of a fatal message whose hook is running. -/
def FatalTask.number : FatalTask → Option ℕ
  | .call _ => none
  | .hooked n _ _ _ => some n

/-- Every fatal message so far was handed to `fatalCall` or waits for its hook, and the next
one meets a function. -/
structure FatalState.Kept (σ : FatalState) : Prop where
  perm : (σ.handed.map Prod.fst ++ σ.stack.filterMap FatalTask.number).Perm
    (List.range σ.raised)
  hook : σ.outcome = .running → ∀ capture now rest,
    σ.stack = .call (.saveMessage capture now) :: rest → wasFatal capture._level = true →
      σ.g_fatal_pre_logging_hook ≠ .empty

/-- Of the calls that set the hook and those that run it, the first one sets it. -/
def hookSetFirst : List FatalOp → Bool
  | [] => true
  | .initializeLogging _ :: _ => true
  | .setFatalPreLoggingHook _ :: _ => true
  | .saveMessage capture _ :: ops => !wasFatal capture._level && hookSetFirst ops
  | .shutDownLogging :: ops => hookSetFirst ops
  | .setFatalExitHandler _ :: ops => hookSetFirst ops

namespace FatalState

/-- While the hook is empty, no function of the program has run, and the hook is set before
the next fatal message. -/
structure HookInv (σ : FatalState) : Prop where
  perm : (σ.handed.map Prod.fst ++ σ.stack.filterMap FatalTask.number).Perm
    (List.range σ.raised)
  empty : σ.outcome = .running → σ.g_fatal_pre_logging_hook = .empty →
    ∃ ops, σ.stack = ops.map .call ∧ hookSetFirst ops = true

theorem HookInv.kept {σ : FatalState} (h : HookInv σ) : Kept σ := by
  constructor
  · exact h.perm
  · intro hrun capture now rest hstack hfatal hempty
    obtain ⟨ops, hops, hfirst⟩ := h.empty hrun hempty
    rw [hstack] at hops
    cases ops with
    | nil => cases hops
    | cons op ops =>
        simp only [List.map_cons, List.cons.injEq, FatalTask.call.injEq] at hops
        rw [← hops.1] at hfirst
        simp [hookSetFirst, hfatal] at hfirst

theorem filterMap_number_map_call (ops : List FatalOp) :
    (ops.map FatalTask.call).filterMap FatalTask.number = [] := by
  rw [List.filterMap_map]
  exact List.filterMap_eq_nil_iff.mpr fun op _ => rfl

theorem filterMap_number_append (ops : List FatalOp) (rest : List FatalTask) :
    (ops.map FatalTask.call ++ rest).filterMap FatalTask.number =
      rest.filterMap FatalTask.number := by
  rw [List.filterMap_append, filterMap_number_map_call, List.nil_append]

section
variable {body : FunctionId → List FatalOp} {σ : FatalState} {rest : List FatalTask}

/-- A call that leaves the fatal messages and the empty hook alone. -/
theorem HookInv.of_call {op : FatalOp} {σ' : FatalState} (h : HookInv σ)
    (hstack : σ.stack = .call op :: rest) (hrest : σ'.stack = rest)
    (hhanded : σ'.handed = σ.handed) (hraised : σ'.raised = σ.raised)
    (hempty : σ'.outcome = .running → σ'.g_fatal_pre_logging_hook = .empty →
      σ.outcome = .running ∧ σ.g_fatal_pre_logging_hook = .empty ∧
        ∀ ops, hookSetFirst (op :: ops) = true → hookSetFirst ops = true) : HookInv σ' := by
  constructor
  · have hperm := h.perm
    rw [hstack] at hperm
    rw [hrest, hhanded, hraised]
    exact hperm
  · intro hrun hhook
    obtain ⟨hrun', hhook', hops⟩ := hempty hrun hhook
    obtain ⟨ops, hops', hfirst⟩ := h.empty hrun' hhook'
    rw [hstack] at hops'
    cases ops with
    | nil => cases hops'
    | cons op' ops =>
        simp only [List.map_cons, List.cons.injEq, FatalTask.call.injEq] at hops'
        obtain ⟨rfl, rfl⟩ := hops'
        exact ⟨ops, hrest, hops ops hfirst⟩

/-- A fatal message is counted and waits for its hook. -/
theorem HookInv.saveFatal {capture : LogCapture} {now : Int} (h : HookInv σ)
    (hrun : σ.outcome = .running) (hstack : σ.stack = .call (.saveMessage capture now) :: rest)
    (hfatal : wasFatal capture._level = true) :
    HookInv (σ.saveFatal body capture now rest) := by
  have hhook := h.kept.hook hrun capture now rest hstack hfatal
  have hperm := h.perm
  rw [hstack] at hperm
  have hnew : (σ.handed.map Prod.fst ++ σ.raised :: rest.filterMap FatalTask.number).Perm
      (List.range (σ.raised + 1)) := by
    rw [List.range_succ]
    exact List.perm_middle.trans ((hperm.cons _).trans (List.perm_append_singleton _ _).symm)
  cases hcase : σ.g_fatal_pre_logging_hook with
  | empty => exact absurd hcase hhook
  | doesNothing =>
      constructor
      · simpa [FatalState.saveFatal, callHook, hcase, FatalTask.number] using hnew
      · intro _ hempty
        simp [FatalState.saveFatal, callHook, hcase] at hempty
  | function id =>
      constructor
      · simp only [FatalState.saveFatal, callHook, hcase, filterMap_number_append]
        exact hnew
      · intro _ hempty
        simp [FatalState.saveFatal, callHook, hcase] at hempty

theorem HookInv.call {op : FatalOp} (h : HookInv σ) (hrun : σ.outcome = .running)
    (hstack : σ.stack = .call op :: rest) : HookInv (σ.call body op rest) := by
  cases op with
  | initializeLogging bgworker =>
      apply h.of_call hstack
      · rfl
      · simp only [FatalState.call, FatalState.initializeLogging]
        split <;> rfl
      · simp only [FatalState.call, FatalState.initializeLogging]
        split <;> rfl
      · intro hrun' hempty
        simp only [FatalState.call, FatalState.initializeLogging] at hrun' hempty
        split at hrun'
        · simp_all
        · cases hrun'
  | shutDownLogging =>
      apply h.of_call hstack
      · rfl
      · rfl
      · rfl
      · intro _ hempty
        refine ⟨hrun, hempty, ?_⟩
        intro ops hops
        exact hops
  | setFatalPreLoggingHook hook =>
      apply h.of_call hstack
      · rfl
      · rfl
      · rfl
      · intro _ hempty
        cases hempty
  | setFatalExitHandler handler =>
      apply h.of_call hstack
      · rfl
      · rfl
      · rfl
      · intro _ hempty
        refine ⟨hrun, hempty, ?_⟩
        intro ops hops
        exact hops
  | saveMessage capture now =>
      rw [FatalState.call]
      split
      · next hfatal => exact h.saveFatal hrun hstack hfatal
      · apply h.of_call hstack
        · rfl
        · rfl
        · rfl
        · intro _ hempty
          refine ⟨hrun, hempty, ?_⟩
          intro ops hops
          simp only [hookSetFirst, Bool.and_eq_true] at hops
          exact hops.2

/-- A message is handed over when its hook has returned. -/
theorem HookInv.finishFatal {n : ℕ} {message : LogMessage} {signal : Int} {trace : String}
    (h : HookInv σ) (hrun : σ.outcome = .running)
    (hstack : σ.stack = .hooked n message signal trace :: rest) :
    HookInv (σ.finishFatal body n message signal trace rest) := by
  have hperm := h.perm
  rw [hstack] at hperm
  have hhook : σ.g_fatal_pre_logging_hook ≠ .empty := by
    intro hempty
    obtain ⟨ops, hops, -⟩ := h.empty hrun hempty
    rw [hstack] at hops
    cases ops with
    | nil => cases hops
    | cons op ops => cases hops
  have hnew : (σ.handed.map Prod.fst ++ n :: rest.filterMap FatalTask.number).Perm
      (List.range σ.raised) := by
    simpa [FatalTask.number] using hperm
  cases hcase : σ.g_fatal_to_g3logworker_function_ptr with
  | pushFatalMessageToLogger =>
      constructor
      · simpa [FatalState.finishFatal, fatalCall, hcase] using hnew
      · intro _ hempty
        simp only [FatalState.finishFatal, fatalCall, hcase] at hempty
        exact absurd hempty hhook
  | function id =>
      constructor
      · simp only [FatalState.finishFatal, fatalCall, hcase, filterMap_number_append,
          List.map_append]
        simpa using hnew
      · intro _ hempty
        simp only [FatalState.finishFatal, fatalCall, hcase] at hempty
        exact absurd hempty hhook

/-- A step is a call or the end of a `saveMessage`. -/
theorem step_cases {σ' : FatalState} (h : σ.step body = some σ') :
    σ.outcome = .running ∧
      ((∃ op rest, σ.stack = .call op :: rest ∧ σ' = σ.call body op rest) ∨
        ∃ n message signal trace rest, σ.stack = .hooked n message signal trace :: rest ∧
          σ' = σ.finishFatal body n message signal trace rest) := by
  rw [step] at h
  split at h
  · next hrun =>
      refine ⟨hrun, ?_⟩
      split at h
      · cases h
      · next op rest hstack =>
          exact .inl ⟨op, rest, hstack, (Option.some.inj h).symm⟩
      · next n message signal trace rest hstack =>
          exact .inr ⟨n, message, signal, trace, rest, hstack, (Option.some.inj h).symm⟩
  · cases h

theorem HookInv.step {σ' : FatalState} (h : HookInv σ) (hstep : σ.step body = some σ') :
    HookInv σ' := by
  obtain ⟨hrun, ⟨op, rest, hstack, rfl⟩ | ⟨n, message, signal, trace, rest, hstack, rfl⟩⟩ :=
    step_cases hstep
  · exact h.call hrun hstack
  · exact h.finishFatal hrun hstack

theorem hookInv_start {program : List FatalOp} (h : hookSetFirst program = true) :
    HookInv (.start program) := by
  constructor
  · simp only [start, filterMap_number_map_call]
    exact .refl _
  · intro _ _
    exact ⟨program, rfl, h⟩

theorem step_call {op : FatalOp} (hrun : σ.outcome = .running)
    (hstack : σ.stack = .call op :: rest) : σ.step body = some (σ.call body op rest) := by
  simp [step, hrun, hstack]

/-- The calls before the first one that sets or runs the hook leave it empty, so a fatal
message among them comes to meet it. -/
theorem exists_not_kept {program ops : List FatalOp} (hfirst : hookSetFirst ops = false)
    (hσ : (fatalRun body program).Reachable σ) (hrun : σ.outcome = .running)
    (hhook : σ.g_fatal_pre_logging_hook = .empty) (hstack : σ.stack = ops.map .call) :
    ∃ σ', (fatalRun body program).Reachable σ' ∧ ¬ Kept σ' := by
  induction ops generalizing σ with
  | nil => cases hfirst
  | cons op ops ih =>
      have hnext : (fatalRun body program).Reachable (σ.call body op (ops.map .call)) :=
        .step (a := ()) hσ trivial (step_call hrun hstack)
      cases op with
      | initializeLogging bgworker => cases hfirst
      | setFatalPreLoggingHook hook => cases hfirst
      | shutDownLogging => exact ih hfirst hnext hrun hhook rfl
      | setFatalExitHandler handler => exact ih hfirst hnext hrun hhook rfl
      | saveMessage capture now =>
          cases hfatal : wasFatal capture._level with
          | true =>
              refine ⟨σ, hσ, ?_⟩
              intro hkept
              exact hkept.hook hrun capture now (ops.map .call) hstack hfatal hhook
          | false =>
              simp only [hookSetFirst, hfatal, Bool.not_false, Bool.true_and] at hfirst
              simp only [FatalState.call, hfatal, Bool.false_eq_true, if_false] at hnext
              exact ih hfirst hnext hrun hhook rfl

end
end FatalState

open FatalState

/-- In every run every fatal message is handed to `fatalCall`, after a hook that is a
function, if and only if the program sets a hook before its first fatal message. -/
theorem fatal_kept_iff (body : FunctionId → List FatalOp) (program : List FatalOp) :
    (∀ σ, (fatalRun body program).Reachable σ → Kept σ) ↔ hookSetFirst program = true := by
  constructor
  · intro h
    by_contra hfirst
    rw [Bool.not_eq_true] at hfirst
    have hstart : (fatalRun body program).Reachable (.start program) := .start rfl
    obtain ⟨σ, hσ, hkept⟩ := exists_not_kept hfirst hstart rfl rfl rfl
    exact hkept (h σ hσ)
  · intro hfirst σ hσ
    have hinv : HookInv σ := by
      apply hσ.invariant
      · intro s hs
        cases hs
        exact hookInv_start hfirst
      · intro s _ s' _ _ hs hstep
        exact hs.step hstep
    exact hinv.kept

/-- A fatal capture. -/
def fatalCapture : LogCapture := .new "" "main.cpp" 3 "main" G3LOG_FATAL

/-- A fatal message before anything is initialized. -/
theorem fatal_before_initialize :
    ((FatalState.start [.saveMessage fatalCapture 0]).step fun _ => []).map
      (fun σ => (σ.outcome, σ.raised, σ.handed)) = some (.threw, 1, []) ∧
    ¬ ∀ σ, (fatalRun (fun _ => []) [.saveMessage fatalCapture 0]).Reachable σ → Kept σ := by
  refine ⟨by decide +kernel, ?_⟩
  intro h
  have hkept := h _ (.start rfl)
  exact hkept.hook rfl fatalCapture 0 [] rfl (by decide) rfl

end G3log
