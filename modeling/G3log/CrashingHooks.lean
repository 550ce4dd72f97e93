import G3log.FatalHook

/-!
# Hooks that log fatal messages

A hook may log fatal messages of its own, and `saveMessage` replaces the hook before it runs
it. `crashing_hook_runs_once` says that the hook then runs once, however many there are,
unless an exit handler puts it back. The counter that is meant to tell such messages from
others is only reset by `initializeLogging`: `unwarned_iff` says which messages get the
warning about a recursive crash.

## Main definitions

* `FatalState.hookRun`, `FatalState.nesting` -- the hook a call runs, and how deep it is.
* `FatalState.Quiet` -- exit handlers that return and do no more than that.
* `FatalState.Ran` -- a part of a run, and what it hands over.
* `FatalState.Unwarned` -- no message carries the warning.
* `FatalState.Apart` -- a program that never raises two fatal messages after one initialization.
-/

namespace G3log

open Transition

/-- The call registers a hook. `initializeLogging` registers the one that does nothing. -/
def FatalOp.registersHook : FatalOp → Bool
  | .initializeLogging _ => true
  | .setFatalPreLoggingHook _ => true
  | _ => false

def FatalOp.isSaveMessage : FatalOp → Bool
  | .saveMessage _ _ => true
  | _ => false

/-- A fatal log event. -/
def FatalOp.isFatal : FatalOp → Bool
  | .saveMessage capture _ => wasFatal capture._level
  | _ => false

/-- The call changes how many fatal messages there are since the last initialization. -/
def FatalOp.counts : FatalOp → Bool
  | .initializeLogging _ => true
  | op => op.isFatal

def FatalTask.called : FatalTask → Option FatalOp
  | .call op => some op
  | .hooked _ _ _ _ => none

/-- The fatal message of a capture, when `counter` fatal messages have been counted. -/
def LogCapture.fatalMessage (counter : ℕ) (first_stack_trace : String) (now : Int)
    (c : LogCapture) : FatalMessage :=
  let message := (c.message now).append c._stack_trace
  let message :=
    if counter > 1 then message.append (recursiveCrash first_stack_trace) else message
  { message with _signal_id := c._fatal_signal }

namespace FatalState

/-- The hook that the next call runs, if it is one for a fatal message. -/
def hookRun (σ : FatalState) : List Hook :=
  match σ.stack with
  | .call (.saveMessage capture _) :: _ =>
      if wasFatal capture._level then [σ.g_fatal_pre_logging_hook] else []
  | _ => []

def hooksRun (visited : List FatalState) : List Hook := visited.flatMap hookRun

/-- How many calls of `saveMessage` wait for their hook. -/
def depth (stack : List FatalTask) : ℕ := (stack.filterMap FatalTask.number).length

/-- The nesting of `saveMessage`, with the call that comes next. -/
def nesting (σ : FatalState) : ℕ :=
  match σ.stack with
  | .call op :: rest => if op.isSaveMessage then depth rest + 1 else depth rest
  | stack => depth stack

/-- Exit handlers that return, and only set others of the kind or shut the logging down. -/
def Quiet (body : FunctionId → List FatalOp) (handlers : FunctionId → Prop) : Prop :=
  ∀ g, handlers g → ∀ op ∈ body g, op.registersHook = false ∧ op.isSaveMessage = false ∧
    ∀ g', op = .setFatalExitHandler g' → handlers g'

/-- The process runs, the hook does nothing, and the exit handler is one of `handlers`. -/
structure Settled (handlers : FunctionId → Prop) (σ : FatalState) : Prop where
  running : σ.outcome = .running
  hook : σ.g_fatal_pre_logging_hook = .doesNothing
  handler : ∃ g, σ.g_fatal_to_g3logworker_function_ptr = .function g ∧ handlers g

/-- A part of a run: it leaves `rest` to do, runs `hooks`, and hands `handed` over, all of it
new fatal messages, while `saveMessage` is nested at most `d` deep. -/
structure Ran (body : FunctionId → List FatalOp) (handlers : FunctionId → Prop) (d : ℕ)
    (σ : FatalState) (rest : List FatalTask) (hooks : List Hook)
    (handed : List (ℕ × FatalMessage)) (σ' : FatalState) : Prop where
  visits : ∃ visited, (fatalRun body []).Visits σ visited σ' ∧ hooksRun visited = hooks ∧
    ∀ τ ∈ visited, τ.nesting ≤ d
  stack : σ'.stack = rest
  settled : Settled handlers σ'
  counter : σ'.g_fatal_hook_recursive_counter = σ.g_fatal_hook_recursive_counter + handed.length
  first : σ'.first_stack_trace = σ.first_stack_trace
  raised : σ'.raised = σ.raised + handed.length
  handed : σ'.handed = σ.handed ++ handed

section
variable {body : FunctionId → List FatalOp} {handlers : FunctionId → Prop} {d : ℕ}
  {σ σ₁ σ' : FatalState} {rest rest₁ : List FatalTask} {hooks hooks₁ : List Hook}
  {handed handed₁ : List (ℕ × FatalMessage)}

theorem Ran.refl (h : Settled handlers σ) (hstack : σ.stack = rest) :
    Ran body handlers d σ rest [] [] σ := by
  constructor
  · refine ⟨[], .refl σ, rfl, ?_⟩
    intro τ hτ
    cases hτ
  · exact hstack
  · exact h
  · rfl
  · rfl
  · rfl
  · rw [List.append_nil]

theorem Ran.trans (h : Ran body handlers d σ rest₁ hooks₁ handed₁ σ₁)
    (h' : Ran body handlers d σ₁ rest hooks handed σ') :
    Ran body handlers d σ rest (hooks₁ ++ hooks) (handed₁ ++ handed) σ' := by
  obtain ⟨visited₁, hvisits₁, hhooks₁, hnesting₁⟩ := h.visits
  obtain ⟨visited, hvisits, hhooks, hnesting⟩ := h'.visits
  constructor
  · refine ⟨visited₁ ++ visited, hvisits₁.trans hvisits, ?_, ?_⟩
    · rw [hooksRun, List.flatMap_append]
      exact congrArg₂ (· ++ ·) hhooks₁ hhooks
    · intro τ hτ
      rcases List.mem_append.mp hτ with hτ | hτ
      · exact hnesting₁ τ hτ
      · exact hnesting τ hτ
  · exact h'.stack
  · exact h'.settled
  · rw [h'.counter, h.counter, List.length_append]
    omega
  · rw [h'.first, h.first]
  · rw [h'.raised, h.raised, List.length_append]
    omega
  · rw [h'.handed, h.handed, List.append_assoc]

theorem step_hooked {n : ℕ} {message : LogMessage} {signal : Int} {trace : String}
    (hrun : σ.outcome = .running) (hstack : σ.stack = .hooked n message signal trace :: rest) :
    σ.step body = some (σ.finishFatal body n message signal trace rest) := by
  simp [step, hrun, hstack]

theorem nesting_call {op : FatalOp} (hstack : σ.stack = .call op :: rest) :
    σ.nesting = if op.isSaveMessage then depth rest + 1 else depth rest := by
  rw [nesting, hstack]

theorem depth_append (ops : List FatalOp) (rest : List FatalTask) :
    depth (ops.map .call ++ rest) = depth rest := by
  rw [depth, filterMap_number_append, depth]

/-- A call that is not a fatal message and registers no hook. -/
theorem Ran.call {op : FatalOp} (h : Settled handlers σ) (hstack : σ.stack = .call op :: rest)
    (hhook : op.registersHook = false) (hfatal : op.isFatal = false)
    (hhandler : ∀ g, op = .setFatalExitHandler g → handlers g) (hd : σ.nesting ≤ d) :
    Ran body handlers d σ rest [] [] (σ.call body op rest) := by
  have hvisits : ∃ visited, (fatalRun body []).Visits σ visited (σ.call body op rest) ∧
      hooksRun visited = [] ∧ ∀ τ ∈ visited, τ.nesting ≤ d := by
    refine ⟨[σ], .single (a := ()) (step_call h.running hstack), ?_, ?_⟩
    · cases op with
      | saveMessage capture now =>
          have hlevel : wasFatal capture._level = false := hfatal
          simp [hooksRun, hookRun, hstack, hlevel]
      | initializeLogging | shutDownLogging | setFatalPreLoggingHook | setFatalExitHandler =>
          simp [hooksRun, hookRun, hstack]
    · intro τ hτ
      rwa [List.mem_singleton.mp hτ]
  cases op with
  | initializeLogging bgworker => cases hhook
  | setFatalPreLoggingHook hook => cases hhook
  | shutDownLogging =>
      constructor
      · exact hvisits
      · rfl
      · exact ⟨h.running, h.hook, h.handler⟩
      · rfl
      · rfl
      · rfl
      · exact (List.append_nil _).symm
  | setFatalExitHandler g =>
      constructor
      · exact hvisits
      · rfl
      · exact ⟨h.running, h.hook, g, rfl, hhandler g rfl⟩
      · rfl
      · rfl
      · rfl
      · exact (List.append_nil _).symm
  | saveMessage capture now =>
      have hlevel : wasFatal capture._level = false := hfatal
      simp only [FatalState.call, hlevel, Bool.false_eq_true, if_false] at hvisits ⊢
      constructor
      · exact hvisits
      · rfl
      · exact ⟨h.running, h.hook, h.handler⟩
      · rfl
      · rfl
      · rfl
      · exact (List.append_nil _).symm

/-- An exit handler returns. -/
theorem exists_ran_quiet {ops : List FatalOp} (h : Settled handlers σ)
    (hops : ∀ op ∈ ops, op.registersHook = false ∧ op.isSaveMessage = false ∧
      ∀ g', op = .setFatalExitHandler g' → handlers g')
    (hstack : σ.stack = ops.map .call ++ rest) (hd : depth rest ≤ d) :
    ∃ σ', Ran body handlers d σ rest [] [] σ' := by
  induction ops generalizing σ with
  | nil => exact ⟨σ, .refl h hstack⟩
  | cons op ops ih =>
      have hstack : σ.stack = .call op :: (ops.map .call ++ rest) := hstack
      obtain ⟨hhook, hsave, hhandler⟩ := hops op List.mem_cons_self
      have hfatal : op.isFatal = false := by
        cases op with
        | saveMessage capture now => cases hsave
        | initializeLogging | shutDownLogging | setFatalPreLoggingHook
        | setFatalExitHandler => rfl
      have hnesting : σ.nesting ≤ d := by
        rw [nesting_call hstack, hsave, depth_append]
        exact hd
      have hfirst : Ran body handlers d σ (ops.map .call ++ rest) [] [] _ :=
        Ran.call h hstack hhook hfatal hhandler hnesting
      obtain ⟨σ', hrest⟩ := ih hfirst.settled
        (fun op' hop' => hops op' (List.mem_cons_of_mem _ hop')) hfirst.stack
      exact ⟨σ', hfirst.trans hrest⟩

/-- Once its hook has returned, a message is handed over and the exit handler returns. -/
theorem exists_ran_hooked {n : ℕ} {capture : LogCapture} {now : Int} {first : String}
    (h : Settled handlers σ) (hquiet : Quiet body handlers)
    (hfirst : σ.first_stack_trace = some first)
    (hstack : σ.stack = .hooked n (capture.message now) capture._fatal_signal
      capture._stack_trace :: rest) (hd : depth rest + 1 ≤ d) :
    ∃ visited σ', (fatalRun body []).Visits σ visited σ' ∧ hooksRun visited = [] ∧
      (∀ τ ∈ visited, τ.nesting ≤ d) ∧ σ'.stack = rest ∧ Settled handlers σ' ∧
      σ'.g_fatal_hook_recursive_counter = σ.g_fatal_hook_recursive_counter ∧
      σ'.first_stack_trace = σ.first_stack_trace ∧ σ'.raised = σ.raised ∧
      σ'.handed = σ.handed ++
        [(n, capture.fatalMessage σ.g_fatal_hook_recursive_counter first now)] := by
  obtain ⟨g, hg, hgood⟩ := h.handler
  have hstep : σ.step body = some _ := step_hooked h.running hstack
  set σ₁ := σ.finishFatal body n (capture.message now) capture._fatal_signal
    capture._stack_trace rest with hσ₁
  have hfinish : σ₁ = { σ with
      handed := σ.handed ++
        [(n, capture.fatalMessage σ.g_fatal_hook_recursive_counter first now)]
      stack := (body g).map .call ++ rest } := by
    rw [hσ₁]
    simp only [finishFatal, fatalCall, hg, LogCapture.fatalMessage, hfirst, Option.getD_some]
  have hsettled : Settled handlers σ₁ := by
    rw [hfinish]
    exact ⟨h.running, h.hook, g, hg, hgood⟩
  have hbody : σ₁.stack = (body g).map .call ++ rest := by rw [hfinish]
  obtain ⟨σ', hran⟩ : ∃ σ', Ran body handlers d σ₁ rest [] [] σ' :=
    exists_ran_quiet hsettled (hquiet g hgood) hbody (by omega)
  obtain ⟨visited, hvisits, hhooks, hnesting⟩ := hran.visits
  refine ⟨σ :: visited, σ', .step (a := ()) hstep hvisits, ?_, ?_, hran.stack, hran.settled,
    ?_, ?_, ?_, ?_⟩
  · rw [hooksRun, List.flatMap_cons]
    have hnone : σ.hookRun = [] := by rw [hookRun, hstack]
    rw [hnone]
    exact hhooks
  · intro τ hτ
    rcases List.mem_cons.mp hτ with rfl | hτ
    · rw [nesting, hstack]
      exact hd
    · exact hnesting τ hτ
  · rw [hran.counter, hfinish]
    rfl
  · rw [hran.first, hfinish]
  · rw [hran.raised, hfinish]
    rfl
  · rw [hran.handed, hfinish, List.append_nil]

/-- A fatal message that meets the hook that does nothing. -/
theorem exists_ran_fatal {capture : LogCapture} {now : Int} {first : String}
    (h : Settled handlers σ) (hquiet : Quiet body handlers)
    (hfirst : σ.first_stack_trace = some first)
    (hstack : σ.stack = .call (.saveMessage capture now) :: rest)
    (hfatal : wasFatal capture._level = true) (hd : depth rest + 1 ≤ d) :
    ∃ σ', Ran body handlers d σ rest [.doesNothing]
      [(σ.raised, capture.fatalMessage (σ.g_fatal_hook_recursive_counter + 1) first now)] σ' := by
  have hstep : σ.step body = some _ := step_call h.running hstack
  set σ₁ := σ.call body (.saveMessage capture now) rest with hσ₁
  have hsave : σ₁ = { σ with
      g_fatal_hook_recursive_counter := σ.g_fatal_hook_recursive_counter + 1
      raised := σ.raised + 1
      stack := .hooked σ.raised (capture.message now) capture._fatal_signal
        capture._stack_trace :: rest } := by
    rw [hσ₁, FatalState.call, if_pos hfatal, saveFatal, h.hook, callHook, hfirst,
      Option.getD_some, ← hfirst, ← h.hook]
  have hsettled : Settled handlers σ₁ := by
    rw [hsave]
    exact ⟨h.running, h.hook, h.handler⟩
  have hfirst₁ : σ₁.first_stack_trace = some first := by
    rw [hsave]
    exact hfirst
  have hstack₁ : σ₁.stack = .hooked σ.raised (capture.message now) capture._fatal_signal
      capture._stack_trace :: rest := by rw [hsave]
  obtain ⟨visited, σ', hvisits, hhooks, hnesting, hrest, hsettled', hcounter, hfirst', hraised,
    hhanded⟩ := exists_ran_hooked hsettled hquiet hfirst₁ hstack₁ hd
  refine ⟨σ', ⟨σ :: visited, .step (a := ()) hstep hvisits, ?_, ?_⟩, hrest, hsettled', ?_, ?_,
    ?_, ?_⟩
  · rw [hooksRun, List.flatMap_cons]
    have hhook : σ.hookRun = [.doesNothing] := by
      rw [hookRun, hstack]
      simp only [hfatal, if_true, h.hook]
    rw [hhook]
    exact congrArg ([Hook.doesNothing] ++ ·) hhooks
  · intro τ hτ
    rcases List.mem_cons.mp hτ with rfl | hτ
    · rw [nesting_call hstack]
      exact hd
    · exact hnesting τ hτ
  · rw [hcounter, hsave]
    rfl
  · rw [hfirst', hsave]
  · rw [hraised, hsave]
    rfl
  · rw [hhanded, hsave]

/-- The fatal messages of some calls, when `counter` and `n` of them have gone before. -/
def handedBy (first : String) : ℕ → ℕ → List FatalOp → List (ℕ × FatalMessage)
  | _, _, [] => []
  | counter, n, .saveMessage capture now :: ops =>
      if wasFatal capture._level then
        (n, capture.fatalMessage (counter + 1) first now) ::
          handedBy first (counter + 1) (n + 1) ops
      else handedBy first counter n ops
  | counter, n, _ :: ops => handedBy first counter n ops

theorem handedBy_cons_of_not_fatal {op : FatalOp} (h : op.isFatal = false) (first : String)
    (counter n : ℕ) (ops : List FatalOp) :
    handedBy first counter n (op :: ops) = handedBy first counter n ops := by
  cases op with
  | saveMessage capture now =>
      have hlevel : wasFatal capture._level = false := h
      simp [handedBy, hlevel]
  | initializeLogging | shutDownLogging | setFatalPreLoggingHook | setFatalExitHandler => rfl

/-- They are numbered as they come. -/
theorem handedBy_numbers (first : String) (counter n : ℕ) (ops : List FatalOp) :
    (handedBy first counter n ops).map Prod.fst =
      List.range' n (ops.countP FatalOp.isFatal) := by
  induction ops generalizing counter n with
  | nil => rfl
  | cons op ops ih =>
      cases hfatal : op.isFatal with
      | false =>
          rw [handedBy_cons_of_not_fatal hfatal, ih, List.countP_cons, hfatal]
          rfl
      | true =>
          cases op with
          | saveMessage capture now =>
              have hlevel : wasFatal capture._level = true := hfatal
              rw [List.countP_cons, hfatal, if_pos rfl, List.range'_succ, ← ih (counter + 1)]
              simp [handedBy, hlevel]
          | initializeLogging | shutDownLogging | setFatalPreLoggingHook
          | setFatalExitHandler => cases hfatal

theorem length_handedBy (first : String) (counter n : ℕ) (ops : List FatalOp) :
    (handedBy first counter n ops).length = ops.countP FatalOp.isFatal := by
  rw [← List.length_map (f := Prod.fst), handedBy_numbers, List.length_range']

/-- The body of a hook that registers none, while the hook does nothing. -/
theorem exists_ran_hook {ops : List FatalOp} {first : String} (h : Settled handlers σ)
    (hquiet : Quiet body handlers)
    (hops : ∀ op ∈ ops, op.registersHook = false ∧
      ∀ g, op = .setFatalExitHandler g → handlers g)
    (hfirst : σ.first_stack_trace = some first) (hstack : σ.stack = ops.map .call ++ rest)
    (hd : depth rest + 1 ≤ d) :
    ∃ σ', Ran body handlers d σ rest (List.replicate (ops.countP FatalOp.isFatal) .doesNothing)
      (handedBy first σ.g_fatal_hook_recursive_counter σ.raised ops) σ' := by
  induction ops generalizing σ with
  | nil => exact ⟨σ, .refl h hstack⟩
  | cons op ops ih =>
      have hstack : σ.stack = .call op :: (ops.map .call ++ rest) := hstack
      have hdepth : depth (ops.map .call ++ rest) = depth rest := depth_append ops rest
      obtain ⟨hhook, hhandler⟩ := hops op List.mem_cons_self
      have hops' : ∀ op' ∈ ops, op'.registersHook = false ∧
          ∀ g, op' = .setFatalExitHandler g → handlers g :=
        fun op' hop' => hops op' (List.mem_cons_of_mem _ hop')
      cases hfatal : op.isFatal with
      | false =>
          have hnesting : σ.nesting ≤ d := by
            rw [nesting_call hstack, hdepth]
            split <;> omega
          have hran : Ran body handlers d σ (ops.map .call ++ rest) [] [] _ :=
            Ran.call h hstack hhook hfatal hhandler hnesting
          obtain ⟨σ', hrest⟩ := ih hran.settled hops' (hran.first.trans hfirst) hran.stack
          refine ⟨σ', ?_⟩
          have hboth := hran.trans hrest
          rw [hran.counter, hran.raised] at hboth
          rw [handedBy_cons_of_not_fatal hfatal, List.countP_cons, hfatal]
          exact hboth
      | true =>
          cases op with
          | saveMessage capture now =>
              have hlevel : wasFatal capture._level = true := hfatal
              obtain ⟨σ₁, hran⟩ := exists_ran_fatal (d := d) h hquiet hfirst hstack hlevel
                (by omega)
              obtain ⟨σ', hrest⟩ := ih hran.settled hops' (hran.first.trans hfirst) hran.stack
              refine ⟨σ', ?_⟩
              have hboth := hran.trans hrest
              rw [hran.counter, hran.raised] at hboth
              rw [List.countP_cons, hfatal, if_pos rfl, List.replicate_succ]
              simp only [handedBy, hlevel, if_true]
              exact hboth
          | initializeLogging | shutDownLogging | setFatalPreLoggingHook
          | setFatalExitHandler => cases hfatal

/-- A fatal message runs the hook `f` once: the messages it logs run the hook that does
nothing, and are handed over before the message itself. -/
def RunsOnce (body : FunctionId → List FatalOp) (f : FunctionId) (capture : LogCapture)
    (now : Int) (rest : List FatalTask) (σ : FatalState) : Prop :=
  ∃ visited σ', (fatalRun body []).Visits σ visited σ' ∧ σ'.stack = rest ∧
    σ'.outcome = .running ∧
    hooksRun visited =
      .function f :: List.replicate ((body f).countP FatalOp.isFatal) .doesNothing ∧
    (∀ τ ∈ visited, τ.nesting ≤ depth rest + 2) ∧
    ∃ nested first,
      nested = handedBy first (σ.g_fatal_hook_recursive_counter + 1) (σ.raised + 1) (body f) ∧
      nested.length = (body f).countP FatalOp.isFatal ∧
      σ'.handed = σ.handed ++ nested ++ [(σ.raised,
        capture.fatalMessage (σ.g_fatal_hook_recursive_counter + 1 + nested.length) first now)]

end
end FatalState

open FatalState

/-- A hook that registers none runs once for a fatal message, however many it logs, if the
exit handlers do no more than return. -/
theorem crashing_hook_runs_once (body : FunctionId → List FatalOp)
    (handlers : FunctionId → Prop) (hquiet : Quiet body handlers) (f g : FunctionId)
    (hf : ∀ op ∈ body f, op.registersHook = false ∧
      ∀ g', op = .setFatalExitHandler g' → handlers g')
    (hg : handlers g) (σ : FatalState) (capture : LogCapture) (now : Int)
    (rest : List FatalTask) (hrun : σ.outcome = .running)
    (hhook : σ.g_fatal_pre_logging_hook = .function f)
    (hhandler : σ.g_fatal_to_g3logworker_function_ptr = .function g)
    (hstack : σ.stack = .call (.saveMessage capture now) :: rest)
    (hfatal : wasFatal capture._level = true) : RunsOnce body f capture now rest σ := by
  set first := σ.first_stack_trace.getD capture._stack_trace with hdef
  have hstep : σ.step body = some _ := step_call hrun hstack
  set σ₁ := σ.call body (.saveMessage capture now) rest with hσ₁
  have hsave : σ₁ = { σ with
      g_fatal_pre_logging_hook := .doesNothing
      g_fatal_hook_recursive_counter := σ.g_fatal_hook_recursive_counter + 1
      first_stack_trace := some first
      raised := σ.raised + 1
      stack := (body f).map .call ++ .hooked σ.raised (capture.message now)
        capture._fatal_signal capture._stack_trace :: rest } := by
    rw [hσ₁, FatalState.call, if_pos hfatal, saveFatal, hhook, callHook]
  have hsettled : Settled handlers σ₁ := by
    rw [hsave]
    exact ⟨hrun, rfl, g, hhandler, hg⟩
  have hfirst₁ : σ₁.first_stack_trace = some first := by rw [hsave]
  have hstack₁ : σ₁.stack = (body f).map .call ++ .hooked σ.raised (capture.message now)
      capture._fatal_signal capture._stack_trace :: rest := by rw [hsave]
  obtain ⟨σ₂, hran⟩ := exists_ran_hook (d := depth rest + 2) hsettled hquiet hf hfirst₁ hstack₁
    (by rw [depth, List.filterMap_cons]; simp [FatalTask.number, depth])
  obtain ⟨visited₂, hvisits₂, hhooks₂, hnesting₂⟩ := hran.visits
  have hfirst₂ : σ₂.first_stack_trace = some first := by rw [hran.first, hsave]
  obtain ⟨visited₃, σ₃, hvisits₃, hhooks₃, hnesting₃, hrest₃, hsettled₃, -, -, -, hhanded₃⟩ :=
    exists_ran_hooked (d := depth rest + 2) hran.settled hquiet hfirst₂ hran.stack (by omega)
  refine ⟨σ :: (visited₂ ++ visited₃), σ₃, .step (a := ()) hstep (hvisits₂.trans hvisits₃),
    hrest₃, hsettled₃.running, ?_, ?_, _, first, rfl, length_handedBy _ _ _ _, ?_⟩
  · have hhook₀ : σ.hookRun = [.function f] := by
      rw [hookRun, hstack]
      simp only [hfatal, if_true, hhook]
    rw [hooksRun] at hhooks₂ hhooks₃ ⊢
    rw [List.flatMap_cons, List.flatMap_append, hhook₀, hhooks₂, hhooks₃, List.append_nil]
    rfl
  · intro τ hτ
    rcases List.mem_cons.mp hτ with rfl | hτ
    · rw [nesting_call hstack]
      exact Nat.le_succ _
    · rcases List.mem_append.mp hτ with hτ | hτ
      · exact hnesting₂ τ hτ
      · exact hnesting₃ τ hτ
  · rw [hhanded₃, hran.handed, hran.counter, hsave]

/-- The hook logs two fatal messages, the exit handler returns. -/
theorem crashing_hook_runs_once_twice :
    RunsOnce (fun id => if id = 0 then [.saveMessage fatalCapture 1, .saveMessage fatalCapture 2]
        else []) 0 fatalCapture 0 []
      { FatalState.start [.saveMessage fatalCapture 0] with
        g_logger_instance := some 0
        g_fatal_pre_logging_hook := .function 0
        g_fatal_to_g3logworker_function_ptr := .function 1 } := by
  apply crashing_hook_runs_once _ (· = 1)
  · intro g hg op hop
    rw [hg] at hop
    cases hop
  · intro op hop
    have hsave : op = .saveMessage fatalCapture 1 ∨ op = .saveMessage fatalCapture 2 := by
      simpa using hop
    rcases hsave with rfl | rfl
    · refine ⟨rfl, ?_⟩
      intro g' hg'
      cases hg'
    · refine ⟨rfl, ?_⟩
      intro g' hg'
      cases hg'
  · rfl
  · rfl
  · rfl
  · rfl
  · rfl
  · decide

/-- The calls of an exit handler are made, and it returns. -/
def FatalState.Returns (body : FunctionId → List FatalOp) (g : FunctionId) : Prop :=
  ∀ σ rest, σ.outcome = .running → σ.stack = (body g).map .call ++ rest →
    ∃ visited σ', (fatalRun body []).Visits σ visited σ' ∧ σ'.stack = rest ∧
      σ'.outcome = .running

/-- Function 0 is a hook that logs two fatal messages. Function 1 is an exit handler that sets
the hook again and itself aside. -/
def restoringBody : FunctionId → List FatalOp
  | 0 => [.saveMessage fatalCapture 1, .saveMessage fatalCapture 2]
  | 1 => [.setFatalPreLoggingHook 0, .setFatalExitHandler 2]
  | _ => []

/-- A hook is set, and a fatal message is logged. -/
def restoringState : FatalState where
  g_logger_instance := some 0
  g_fatal_pre_logging_hook := .function 0
  g_fatal_to_g3logworker_function_ptr := .function 1
  g_fatal_hook_recursive_counter := 0
  first_stack_trace := none
  stack := [.call (.saveMessage fatalCapture 0)]
  raised := 0
  handed := []
  pushed := []
  outcome := .running

theorem returns_one : Returns restoringBody 1 := by
  intro σ rest hrun hstack
  let σ₁ := σ.call restoringBody (.setFatalPreLoggingHook 0)
    (.call (.setFatalExitHandler 2) :: rest)
  have hfirst : σ.step restoringBody = some σ₁ := step_call hrun hstack
  have hsecond : σ₁.step restoringBody =
      some (σ₁.call restoringBody (.setFatalExitHandler 2) rest) := step_call hrun rfl
  exact ⟨_, _, .step (a := ()) hfirst (.step (a := ()) hsecond (.refl _)), rfl, hrun⟩

theorem returns_nil {body : FunctionId → List FatalOp} {g : FunctionId} (h : body g = []) :
    Returns body g := by
  intro σ rest hrun hstack
  rw [h] at hstack
  exact ⟨[], σ, .refl σ, hstack, hrun⟩

/-- The hook that an exit handler puts back runs again. -/
theorem restored_hook_runs_again :
    ¬ ∀ (body : FunctionId → List FatalOp) (f : FunctionId) (σ : FatalState)
      (capture : LogCapture) (now : Int) (rest : List FatalTask),
      (∀ op ∈ body f, op.registersHook = false) →
        (∀ g, σ.g_fatal_to_g3logworker_function_ptr = .function g ∨
          (∃ g', .setFatalExitHandler g ∈ body g') → Returns body g) →
        (∃ g, σ.g_fatal_to_g3logworker_function_ptr = .function g) →
        σ.outcome = .running → σ.g_logger_instance.isSome →
        σ.g_fatal_pre_logging_hook = .function f →
        σ.stack = .call (.saveMessage capture now) :: rest → wasFatal capture._level = true →
        RunsOnce body f capture now rest σ := by
  intro h
  have hreturns : ∀ g, restoringState.g_fatal_to_g3logworker_function_ptr = .function g ∨
      (∃ g', FatalOp.setFatalExitHandler g ∈ restoringBody g') → Returns restoringBody g := by
    intro g hg
    rcases hg with hg | ⟨g', hg⟩
    · cases hg
      exact returns_one
    · have htwo : g = 2 := by
        unfold restoringBody at hg
        split at hg
        · simp at hg
        · simpa using hg
        · simp at hg
      rw [htwo]
      exact returns_nil rfl
  obtain ⟨visited, σ, hvisits, hstack, -, hhooks, -⟩ := h restoringBody 0 restoringState
    fatalCapture 0 [] (by decide) hreturns ⟨1, rfl⟩ rfl rfl rfl rfl (by decide)
  have hagain : ((fatalRun restoringBody []).visit restoringState (List.replicate 12 ())).any
      (fun v => v.2.stack.isEmpty && (hooksRun v.1).count (.function 0) == 2) = true := by
    decide +kernel
  obtain ⟨v, hv, hcount⟩ := (Option.any_eq_true _ _).mp hagain
  rw [Bool.and_eq_true, List.isEmpty_iff, beq_iff_eq] at hcount
  have hend : ∀ σ' : FatalState, σ'.stack = [] → ∀ a,
      (fatalRun restoringBody []).step σ' a = none := by
    intro σ' hempty a
    simp [fatalRun, FatalState.step, hempty]
  have hsame := hvisits.unique (hend σ hstack) (System.visits_of_visit hv) (hend v.2 hcount.1)
  have htwice := hcount.2
  rw [← hsame.1, hhooks] at htwice
  revert htwice
  decide

/-! ## The warning about a recursive crash -/

/-- The fatal message of a capture, without a warning. -/
def LogCapture.unwarned (now : Int) (c : LogCapture) : FatalMessage :=
  { (c.message now).append c._stack_trace with _signal_id := c._fatal_signal }

theorem recursiveCrash_ne_empty (trace : String) : recursiveCrash trace ≠ "" := by
  intro hempty
  have hlength := congrArg String.length hempty
  simp only [recursiveCrash, String.length_append] at hlength
  have hfirst : "\n\n\nWARNING\n".length = 11 := by decide
  have hnone : "".length = 0 := rfl
  omega

/-- The warning is there from the second message on. -/
theorem LogCapture.fatalMessage_eq_unwarned_iff (counter : ℕ) (first : String) (now : Int)
    (c : LogCapture) : c.fatalMessage counter first now = c.unwarned now ↔ counter ≤ 1 := by
  constructor
  · intro heq
    by_contra hmany
    have htext := congrArg (fun m : FatalMessage => m._message.toList) heq
    simp only [LogCapture.fatalMessage, LogCapture.unwarned, if_pos (Nat.not_le.mp hmany),
      LogMessage.append, String.toList_append] at htext
    have hempty : (recursiveCrash first).toList = [] := by simpa using htext
    exact recursiveCrash_ne_empty first (String.toList_inj.mp hempty)
  · intro hone
    rw [LogCapture.fatalMessage, if_neg (Nat.not_lt.mpr hone)]
    rfl

/-- The capture of a fatal log event. -/
def FatalOp.capture : FatalOp → Option (LogCapture × Int)
  | .saveMessage capture now => if wasFatal capture._level then some (capture, now) else none
  | _ => none

namespace FatalState

/-- The call that comes next, if it is one. -/
def callNext (σ : FatalState) : Option FatalOp :=
  match σ.stack with
  | .call op :: _ => some op
  | _ => none

/-- The calls of a run. -/
def calls (visited : List FatalState) : List FatalOp := visited.filterMap callNext

/-- The captures of the fatal messages among some calls, with their times. -/
def fatals (ops : List FatalOp) : List (LogCapture × Int) := ops.filterMap FatalOp.capture

/-- How many fatal messages there are after the last initialization. -/
def fatalsSince (ops : List FatalOp) : ℕ :=
  ops.foldl (fun n op =>
    match op with
    | .initializeLogging _ => 0
    | op => if op.isFatal then n + 1 else n) 0

/-- No message that was handed over carries the warning. -/
def Unwarned (ops : List FatalOp) (handed : List (ℕ × FatalMessage)) : Prop :=
  ∀ n message, (n, message) ∈ handed →
    ∃ capture now, (fatals ops)[n]? = some (capture, now) ∧ message = capture.unwarned now

/-- When the hook of a fatal message has returned, the message is the only one since the last
initialization. -/
def AloneWhenDone (body : FunctionId → List FatalOp) (program : List FatalOp) : Prop :=
  ∀ visited σ, (fatalRun body program).Visits (.start program) visited σ →
    σ.outcome = .running →
      (∃ n message signal trace rest, σ.stack = .hooked n message signal trace :: rest) →
        fatalsSince (calls visited) ≤ 1

/-- What a state says about the calls that led to it. -/
structure Recalls (ops : List FatalOp) (σ : FatalState) : Prop where
  raised : σ.raised = (fatals ops).length
  counter : σ.outcome = .running → σ.g_fatal_hook_recursive_counter = fatalsSince ops
  hooked : ∀ n message signal trace, .hooked n message signal trace ∈ σ.stack →
    ∃ capture now, (fatals ops)[n]? = some (capture, now) ∧ message = capture.message now ∧
      signal = capture._fatal_signal ∧ trace = capture._stack_trace

theorem calls_append_call {σ : FatalState} {op : FatalOp} {rest : List FatalTask}
    (hstack : σ.stack = .call op :: rest) (visited : List FatalState) :
    calls (visited ++ [σ]) = calls visited ++ [op] := by
  have hnext : σ.callNext = some op := by rw [callNext, hstack]
  rw [calls, List.filterMap_append, List.filterMap_cons_some hnext]
  rfl

theorem calls_append_hooked {σ : FatalState} {n : ℕ} {message : LogMessage} {signal : Int}
    {trace : String} {rest : List FatalTask}
    (hstack : σ.stack = .hooked n message signal trace :: rest) (visited : List FatalState) :
    calls (visited ++ [σ]) = calls visited := by
  have hnext : σ.callNext = none := by rw [callNext, hstack]
  rw [calls, List.filterMap_append, List.filterMap_cons_none hnext, List.filterMap_nil,
    List.append_nil]
  rfl

theorem fatalsSince_append (ops : List FatalOp) (op : FatalOp) :
    fatalsSince (ops ++ [op]) =
      match op with
      | .initializeLogging _ => 0
      | op => if op.isFatal then fatalsSince ops + 1 else fatalsSince ops := by
  rw [fatalsSince, List.foldl_append]
  rfl

theorem fatals_append (ops : List FatalOp) (op : FatalOp) :
    fatals (ops ++ [op]) = fatals ops ++ op.capture.toList := by
  rw [fatals, List.filterMap_append]
  cases hcapture : op.capture with
  | none => rw [List.filterMap_cons_none hcapture]; rfl
  | some c => rw [List.filterMap_cons_some hcapture]; rfl

section
variable {body : FunctionId → List FatalOp} {σ σ' : FatalState} {rest : List FatalTask}
  {ops : List FatalOp}

theorem recalls_start (program : List FatalOp) : Recalls [] (.start program) := by
  constructor
  · rfl
  · intro _
    rfl
  · intro n message signal trace hmem
    obtain ⟨op, -, hop⟩ := List.mem_map.mp hmem
    cases hop

/-- What was said about the hooks that are running stays true when calls are added. -/
theorem Recalls.hooked_append (h : Recalls ops σ) (op : FatalOp) {n : ℕ} {message : LogMessage}
    {signal : Int} {trace : String} (hmem : .hooked n message signal trace ∈ σ.stack) :
    ∃ capture now, (fatals (ops ++ [op]))[n]? = some (capture, now) ∧
      message = capture.message now ∧ signal = capture._fatal_signal ∧
      trace = capture._stack_trace := by
  obtain ⟨capture, now, hn, hrest⟩ := h.hooked n message signal trace hmem
  have hlt : n < (fatals ops).length := (List.getElem?_eq_some_iff.mp hn).1
  refine ⟨capture, now, ?_, hrest⟩
  rw [fatals_append, List.getElem?_append_left hlt, hn]

/-- A call that is no fatal message. -/
theorem Recalls.of_call {op : FatalOp} (h : Recalls ops σ)
    (hstack : σ.stack = .call op :: rest) (hrest : σ'.stack = rest)
    (hfatal : op.capture = none) (hraised : σ'.raised = σ.raised)
    (hcounter : σ'.outcome = .running →
      σ'.g_fatal_hook_recursive_counter = fatalsSince (ops ++ [op])) :
    Recalls (ops ++ [op]) σ' := by
  constructor
  · rw [hraised, h.raised, fatals_append, hfatal, Option.toList_none, List.append_nil]
  · exact hcounter
  · intro n message signal trace hmem
    apply h.hooked_append op
    rw [hstack]
    rw [hrest] at hmem
    exact List.mem_cons_of_mem _ hmem

/-- A fatal message. -/
theorem Recalls.saveFatal {capture : LogCapture} {now : Int} (h : Recalls ops σ)
    (hrun : σ.outcome = .running) (hstack : σ.stack = .call (.saveMessage capture now) :: rest)
    (hfatal : wasFatal capture._level = true) :
    Recalls (ops ++ [.saveMessage capture now]) (σ.saveFatal body capture now rest) := by
  have hcapture : (FatalOp.saveMessage capture now).capture = some (capture, now) := if_pos hfatal
  have hisFatal : (FatalOp.saveMessage capture now).isFatal = true := hfatal
  have hsince : fatalsSince (ops ++ [.saveMessage capture now]) = fatalsSince ops + 1 := by
    rw [fatalsSince_append]
    exact if_pos hisFatal
  have hfields : (σ.saveFatal body capture now rest).raised = σ.raised + 1 ∧
      (σ.saveFatal body capture now rest).g_fatal_hook_recursive_counter =
        σ.g_fatal_hook_recursive_counter + 1 := by
    simp only [FatalState.saveFatal, callHook]
    split
    · exact ⟨rfl, rfl⟩
    · exact ⟨rfl, rfl⟩
    · exact ⟨rfl, rfl⟩
  have htasks : ∀ n message signal trace,
      FatalTask.hooked n message signal trace ∈ (σ.saveFatal body capture now rest).stack →
        FatalTask.hooked n message signal trace ∈ σ.stack ∨
          FatalTask.hooked n message signal trace = .hooked σ.raised (capture.message now)
            capture._fatal_signal capture._stack_trace := by
    intro n message signal trace hmem
    simp only [FatalState.saveFatal, callHook] at hmem
    rw [hstack] at hmem ⊢
    split at hmem
    · exact .inl hmem
    · rcases List.mem_cons.mp hmem with heq | hmem
      · exact .inr heq
      · exact .inl (List.mem_cons_of_mem _ hmem)
    · rcases List.mem_append.mp hmem with hmem | hmem
      · obtain ⟨op, -, hop⟩ := List.mem_map.mp hmem
        cases hop
      · rcases List.mem_cons.mp hmem with heq | hmem
        · exact .inr heq
        · exact .inl (List.mem_cons_of_mem _ hmem)
  constructor
  · rw [hfields.1, h.raised, fatals_append, hcapture, List.length_append]
    rfl
  · intro _
    rw [hfields.2, h.counter hrun, hsince]
  · intro n message signal trace hmem
    rcases htasks n message signal trace hmem with hold | hnew
    · exact h.hooked_append _ hold
    · injection hnew with hn hmessage hsignal htrace
      refine ⟨capture, now, ?_, hmessage, hsignal, htrace⟩
      rw [hn, h.raised, fatals_append, hcapture, List.getElem?_append_right (Nat.le_refl _),
        Nat.sub_self]
      rfl

theorem Recalls.call {op : FatalOp} (h : Recalls ops σ) (hrun : σ.outcome = .running)
    (hstack : σ.stack = .call op :: rest) : Recalls (ops ++ [op]) (σ.call body op rest) := by
  cases op with
  | initializeLogging bgworker =>
      apply h.of_call hstack
      · rfl
      · rfl
      · simp only [FatalState.call, FatalState.initializeLogging]
        split <;> rfl
      · intro hrun'
        rw [fatalsSince_append]
        simp only [FatalState.call, FatalState.initializeLogging] at hrun' ⊢
        split
        · rfl
        · simp_all
  | shutDownLogging =>
      apply h.of_call hstack
      · rfl
      · rfl
      · rfl
      · intro _
        rw [fatalsSince_append]
        exact h.counter hrun
  | setFatalPreLoggingHook hook =>
      apply h.of_call hstack
      · rfl
      · rfl
      · rfl
      · intro _
        rw [fatalsSince_append]
        exact h.counter hrun
  | setFatalExitHandler handler =>
      apply h.of_call hstack
      · rfl
      · rfl
      · rfl
      · intro _
        rw [fatalsSince_append]
        exact h.counter hrun
  | saveMessage capture now =>
      rw [FatalState.call]
      split
      · next hfatal => exact h.saveFatal hrun hstack hfatal
      · next hfatal =>
          have hisFatal : (FatalOp.saveMessage capture now).isFatal = false := by
            simpa [FatalOp.isFatal] using hfatal
          apply h.of_call hstack
          · rfl
          · exact if_neg hfatal
          · rfl
          · intro _
            rw [fatalsSince_append]
            simp only [hisFatal, Bool.false_eq_true, if_false]
            exact h.counter hrun

variable (body) in
/-- The message is handed over with a warning unless it is the only one. -/
theorem Recalls.finishFatal {n : ℕ} {message : LogMessage} {signal : Int} {trace : String}
    (h : Recalls ops σ) (hrun : σ.outcome = .running)
    (hstack : σ.stack = .hooked n message signal trace :: rest) :
    Recalls ops (σ.finishFatal body n message signal trace rest) ∧
      ∃ capture now, (fatals ops)[n]? = some (capture, now) ∧
        (σ.finishFatal body n message signal trace rest).handed = σ.handed ++
          [(n, capture.fatalMessage (fatalsSince ops) (σ.first_stack_trace.getD "") now)] := by
  obtain ⟨capture, now, hn, rfl, rfl, rfl⟩ := h.hooked n message signal trace (by
    rw [hstack]
    exact List.mem_cons_self)
  have htasks : ∀ n' message' signal' trace', FatalTask.hooked n' message' signal' trace' ∈
      (σ.finishFatal body n (capture.message now) capture._fatal_signal capture._stack_trace
        rest).stack → FatalTask.hooked n' message' signal' trace' ∈ σ.stack := by
    intro n' message' signal' trace' hmem
    rw [hstack]
    simp only [FatalState.finishFatal, fatalCall] at hmem
    split at hmem
    · rcases List.mem_append.mp hmem with hmem | hmem
      · obtain ⟨op, -, hop⟩ := List.mem_map.mp hmem
        cases hop
      · exact List.mem_cons_of_mem _ hmem
    · exact List.mem_cons_of_mem _ hmem
  refine ⟨⟨?_, ?_, ?_⟩, capture, now, hn, ?_⟩
  · simp only [FatalState.finishFatal, fatalCall]
    split
    · exact h.raised
    · exact h.raised
  · intro _
    simp only [FatalState.finishFatal, fatalCall]
    split
    · exact h.counter hrun
    · exact h.counter hrun
  · intro n' message' signal' trace' hmem
    exact h.hooked n' message' signal' trace' (htasks n' message' signal' trace' hmem)
  · rw [← h.counter hrun]
    simp only [FatalState.finishFatal, fatalCall, LogCapture.fatalMessage]
    split <;> rfl

theorem handed_call (op : FatalOp) : (σ.call body op rest).handed = σ.handed := by
  cases op with
  | initializeLogging bgworker =>
      simp only [FatalState.call, FatalState.initializeLogging]
      split <;> rfl
  | shutDownLogging | setFatalPreLoggingHook | setFatalExitHandler => rfl
  | saveMessage capture now =>
      simp only [FatalState.call, FatalState.saveFatal, callHook]
      split
      · split <;> rfl
      · rfl

theorem Unwarned.append {handed : List (ℕ × FatalMessage)} (h : Unwarned ops handed)
    (op : FatalOp) : Unwarned (ops ++ [op]) handed := by
  intro n message hmem
  obtain ⟨capture, now, hn, hmessage⟩ := h n message hmem
  have hlt : n < (fatals ops).length := (List.getElem?_eq_some_iff.mp hn).1
  refine ⟨capture, now, ?_, hmessage⟩
  rw [fatals_append, List.getElem?_append_left hlt, hn]

theorem recalls_of_visits {program : List FatalOp} {visited : List FatalState}
    (h : (fatalRun body program).Visits (.start program) visited σ) :
    Recalls (calls visited) σ := by
  apply h.invariant (P := fun visited σ => Recalls (calls visited) σ)
  · exact recalls_start program
  · intro visited s₁ _ s₂ hrecalls hstep
    obtain ⟨hrun, ⟨op, rest, hstack, rfl⟩ | ⟨n, message, signal, trace, rest, hstack, rfl⟩⟩ :=
      step_cases hstep
    · rw [calls_append_call hstack]
      exact hrecalls.call hrun hstack
    · rw [calls_append_hooked hstack]
      exact (hrecalls.finishFatal body hrun hstack).1

end

/-! ## Messages that are alone by the text of the program -/

/-- The calls that wait and change that number. -/
def waiting (stack : List FatalTask) : List FatalOp :=
  (stack.filterMap FatalTask.called).filter FatalOp.counts

/-- There is at most one fatal message before, between and after the initializations. -/
def Apart (program : List FatalOp) : Prop := ∀ ops, ops <+: program → fatalsSince ops ≤ 1

theorem fatalsSince_filter (ops : List FatalOp) :
    fatalsSince (ops.filter FatalOp.counts) = fatalsSince ops := by
  induction ops using List.reverseRecOn with
  | nil => rfl
  | append_singleton ops op ih =>
      cases hcounts : op.counts with
      | true =>
          rw [List.filter_append, List.filter_cons_of_pos hcounts, List.filter_nil,
            fatalsSince_append, fatalsSince_append, ih]
      | false =>
          rw [List.filter_append, List.filter_cons_of_neg (by simp [hcounts]), List.filter_nil,
            List.append_nil, fatalsSince_append, ih]
          cases op with
          | initializeLogging => cases hcounts
          | saveMessage capture now =>
              have hfatal : (FatalOp.saveMessage capture now).isFatal = false := hcounts
              simp only [hfatal, Bool.false_eq_true, if_false]
          | shutDownLogging | setFatalPreLoggingHook | setFatalExitHandler => rfl

section
variable {body : FunctionId → List FatalOp} {σ : FatalState} {rest : List FatalTask}

theorem waiting_append (ops : List FatalOp) (rest : List FatalTask) :
    waiting (ops.map .call ++ rest) = ops.filter FatalOp.counts ++ waiting rest := by
  have hops : (ops.map FatalTask.call).filterMap FatalTask.called = ops := by
    rw [List.filterMap_map]
    exact List.filterMap_some
  rw [waiting, List.filterMap_append, hops, List.filter_append]
  rfl

variable (hbody : ∀ id, ∀ op ∈ body id, op.counts = false)
include hbody

theorem waiting_body (id : FunctionId) (rest : List FatalTask) :
    waiting ((body id).map .call ++ rest) = waiting rest := by
  have hnone : (body id).filter FatalOp.counts = [] := by
    rw [List.filter_eq_nil_iff]
    intro op hop
    simp [hbody id op hop]
  rw [waiting_append, hnone, List.nil_append]

theorem waiting_callHook {hook : Hook} (hrun : (callHook body hook rest σ).outcome = .running) :
    waiting (callHook body hook rest σ).stack = waiting rest := by
  cases hook with
  | empty => cases hrun
  | doesNothing => rfl
  | function id => exact waiting_body hbody id rest

theorem waiting_call {op : FatalOp} (hrun : (σ.call body op rest).outcome = .running) :
    waiting (σ.call body op rest).stack = waiting rest := by
  cases op with
  | initializeLogging | shutDownLogging | setFatalPreLoggingHook | setFatalExitHandler => rfl
  | saveMessage capture now =>
      rw [FatalState.call] at hrun ⊢
      split at hrun
      · next hfatal =>
          rw [if_pos hfatal]
          exact waiting_callHook hbody hrun
      · next hfatal => rw [if_neg hfatal]

theorem waiting_finishFatal (n : ℕ) (message : LogMessage) (signal : Int) (trace : String) :
    waiting (σ.finishFatal body n message signal trace rest).stack = waiting rest := by
  simp only [finishFatal, fatalCall]
  cases σ.g_fatal_to_g3logworker_function_ptr with
  | pushFatalMessageToLogger => rfl
  | function id => exact waiting_body hbody id rest

/-- The calls of the program are those that were made and those that wait. -/
theorem waiting_of_visits {program : List FatalOp} {visited : List FatalState}
    (h : (fatalRun body program).Visits (.start program) visited σ)
    (hrun : σ.outcome = .running) :
    (calls visited).filter FatalOp.counts ++ waiting σ.stack =
      program.filter FatalOp.counts := by
  revert hrun
  apply h.invariant (P := fun visited σ => σ.outcome = .running →
    (calls visited).filter FatalOp.counts ++ waiting σ.stack = program.filter FatalOp.counts)
  · intro _
    have hstart := waiting_append program []
    have hnil : waiting [] = [] := rfl
    rw [List.append_nil, hnil, List.append_nil] at hstart
    exact hstart
  · intro visited s₁ _ s₂ hwaiting hstep hrun₂
    obtain ⟨hrun, ⟨op, rest, hstack, rfl⟩ | ⟨n, message, signal, trace, rest, hstack, rfl⟩⟩ :=
      step_cases hstep
    · have hcall := waiting_append [op] rest
      rw [List.map_singleton, List.singleton_append] at hcall
      rw [calls_append_call hstack, waiting_call hbody hrun₂, List.filter_append,
        List.append_assoc, ← hcall, ← hstack]
      exact hwaiting hrun
    · rw [calls_append_hooked hstack, waiting_finishFatal hbody]
      rw [hstack] at hwaiting
      exact hwaiting hrun

end

/-- Where the functions of a program neither raise fatal messages nor initialize, the text of
the program says whether a fatal message is the only one. -/
theorem alone_of_apart {body : FunctionId → List FatalOp} {program : List FatalOp}
    (hbody : ∀ id, ∀ op ∈ body id, op.counts = false) (h : Apart program) :
    AloneWhenDone body program := by
  intro visited σ hvisits hrun _
  obtain ⟨made, later, hprogram, hmade, -⟩ :=
    List.filter_eq_append_iff.mp (waiting_of_visits hbody hvisits hrun).symm
  calc fatalsSince (calls visited) = fatalsSince made := by
        rw [← fatalsSince_filter, ← hmade, fatalsSince_filter]
    _ ≤ 1 := h made ⟨later, hprogram.symm⟩

end FatalState

/-- In every run of a program no fatal message carries the warning about a recursive crash if
and only if each one is, when its hook has returned, the only one since the last call of
`initializeLogging`. -/
theorem unwarned_iff (body : FunctionId → List FatalOp) (program : List FatalOp) :
    (∀ visited σ, (fatalRun body program).Visits (.start program) visited σ →
      Unwarned (FatalState.calls visited) σ.handed) ↔ AloneWhenDone body program := by
  constructor
  · intro h visited σ hvisits hrun hhooked
    obtain ⟨n, message, signal, trace, rest, hstack⟩ := hhooked
    have hstep : σ.step body = some _ := step_hooked hrun hstack
    have hrecalls := recalls_of_visits hvisits
    obtain ⟨-, capture, now, hn, hhanded⟩ :=
      hrecalls.finishFatal body hrun hstack
    have hunwarned := h _ _ (hvisits.trans (System.Visits.single (a := ()) hstep))
    rw [calls_append_hooked hstack, hhanded] at hunwarned
    obtain ⟨capture', now', hn', hmessage⟩ := hunwarned n _ (List.mem_append_right _
      (List.mem_singleton_self _))
    rw [hn] at hn'
    obtain ⟨rfl, rfl⟩ := Prod.mk.inj (Option.some.inj hn')
    exact (LogCapture.fatalMessage_eq_unwarned_iff _ _ _ _).mp hmessage
  · intro halone visited σ hvisits
    have hboth : (fatalRun body program).Visits (.start program) visited σ ∧
        Unwarned (FatalState.calls visited) σ.handed := by
      apply hvisits.invariant (P := fun visited σ =>
        (fatalRun body program).Visits (.start program) visited σ ∧
          Unwarned (FatalState.calls visited) σ.handed)
      · refine ⟨.refl _, ?_⟩
        intro n message hmem
        cases hmem
      · intro visited s₁ a s₂ hs₁ hstep
        obtain ⟨hvisits₁, hunwarned⟩ := hs₁
        refine ⟨hvisits₁.trans (System.Visits.single hstep), ?_⟩
        obtain ⟨hrun, ⟨op, rest, hstack, rfl⟩ |
          ⟨n, message, signal, trace, rest, hstack, rfl⟩⟩ := FatalState.step_cases hstep
        · rw [calls_append_call hstack, handed_call]
          exact hunwarned.append op
        · have hone := halone visited s₁ hvisits₁ hrun ⟨n, message, signal, trace, rest, hstack⟩
          obtain ⟨-, capture, now, hn, hhanded⟩ :=
            (recalls_of_visits hvisits₁).finishFatal body hrun hstack
          rw [calls_append_hooked hstack, hhanded]
          intro n' message' hmem
          rcases List.mem_append.mp hmem with hmem | hmem
          · exact hunwarned n' message' hmem
          · obtain ⟨rfl, rfl⟩ := Prod.mk.inj (List.mem_singleton.mp hmem)
            exact ⟨capture, now, hn,
              (LogCapture.fatalMessage_eq_unwarned_iff _ _ _ _).mpr hone⟩
    exact hboth.2

/-- An exit handler that returns, and two fatal messages after one initialization. -/
theorem second_fatal_warned :
    ¬ ∀ (body : FunctionId → List FatalOp) (program : List FatalOp),
      (∀ id, ∀ op ∈ body id, op.isFatal = false) →
        ∀ visited σ, (fatalRun body program).Visits (.start program) visited σ →
          Unwarned (FatalState.calls visited) σ.handed := by
  intro h
  let program : List FatalOp := [.initializeLogging (some 0), .setFatalExitHandler 0,
    .saveMessage fatalCapture 0, .saveMessage fatalCapture 0]
  have hrun : ((fatalRun (fun _ => []) program).visit (.start program)
      (List.replicate 6 ())).any (fun v => v.2.handed.any fun m =>
        (fatals (FatalState.calls v.1))[m.1]? == some (fatalCapture, 0) &&
          m.2 == fatalCapture.fatalMessage 2 fatalCapture._stack_trace 0) = true := by
    decide +kernel
  obtain ⟨v, hv, hwarned⟩ := (Option.any_eq_true _ _).mp hrun
  obtain ⟨m, hm, heq⟩ := List.any_eq_true.mp hwarned
  rw [Bool.and_eq_true, beq_iff_eq, beq_iff_eq] at heq
  have hnone : ∀ id : FunctionId, ∀ op ∈ (fun _ => [] : FunctionId → List FatalOp) id,
      op.isFatal = false := by
    intro id op hop
    cases hop
  obtain ⟨capture, now, hn, hmessage⟩ := h (fun _ => []) program hnone v.1 v.2
    (System.visits_of_visit hv) m.1 m.2 hm
  rw [heq.1] at hn
  obtain ⟨rfl, rfl⟩ := Prod.mk.inj (Option.some.inj hn)
  rw [heq.2, LogCapture.fatalMessage_eq_unwarned_iff] at hmessage
  omega

end G3log
