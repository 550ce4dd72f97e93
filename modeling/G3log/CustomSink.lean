import G3log.FileSink
import G3log.SinkLifetime

/-!
# Messages on the console

`InitG3Logging` gives the worker a sink that prints, and unless the log goes to stderr only the
sinks of the default logger. The threshold is a global that any thread may set at any time. A
message at or above all that have been set is printed, and one below all of them is not, in the
order in which the messages were saved (`console_prints`).

## Main definitions

* `CustomSink.PrintMessage`, `InitG3Logging` -- the sink, and the sinks of a worker.
* `Console`, `Console.step` -- a worker whose sinks print.
* `Prints` -- what a sink has printed.
-/

namespace G3log

open Transition

/-! ## The sink -/

/-- What is given on the command line. -/
structure Flags where
  stderrthreshold : Int
  logtostderr : Bool
  alsologtostderr : Bool
  log_dir : String

namespace CustomSink

inductive FG_Color
  | YELLOW
  | RED
  | GREEN
  | WHITE

def FG_Color.value : FG_Color → ℕ
  | .YELLOW => 33
  | .RED => 31
  | .GREEN => 32
  | .WHITE => 97

def GetColor (level : LEVELS) : FG_Color :=
  if level.value = G3LOG_WARNING.value then .YELLOW
  else if level.value = G3LOG_DEBUG.value then .GREEN
  else if level.value = G3LOG_ERROR.value then .RED
  else if wasFatal level then .RED
  else .WHITE

/-- The whole line has the color. -/
def ColoredFormatting (env : Env) (msg : LogMessage) : String :=
  "\x1b[" ++ toString (GetColor msg._level).value ++ "m" ++ msg.shortLevel ++
    msg.timestamp env ++ " " ++ msg._file ++ "->" ++ msg._function ++ ":" ++ msg.line ++ "] " ++
    msg._message ++ "\x1b[m"

/-- What goes to `std::clog`. -/
def PrintMessage (env : Env) (g_stderrthreshold : Int) (logEntry : LogMessage) : List String :=
  if logEntry.level_value ≥ g_stderrthreshold then [ColoredFormatting env logEntry ++ "\n"]
  else []

/-- With a lower threshold no less is printed. -/
theorem printMessage_sublist (env : Env) {lo hi : Int} (h : lo ≤ hi) (msg : LogMessage) :
    (PrintMessage env hi msg).Sublist (PrintMessage env lo msg) := by
  by_cases hmsg : msg.level_value ≥ hi
  · have hlo : msg.level_value ≥ lo := h.trans hmsg
    rw [PrintMessage, PrintMessage, if_pos hmsg, if_pos hlo]
  · rw [PrintMessage, if_neg hmsg]
    exact List.nil_sublist _

theorem printMessages_sublist (env : Env) {lo hi : Int} (h : lo ≤ hi) (msgs : List LogMessage) :
    (msgs.flatMap (PrintMessage env hi)).Sublist (msgs.flatMap (PrintMessage env lo)) := by
  induction msgs with
  | nil => exact .slnil
  | cons msg msgs ih =>
      rw [List.flatMap_cons, List.flatMap_cons]
      exact (printMessage_sublist env h msg).append ih

end CustomSink

/-- What a sink is made of. -/
inductive SinkKind
  | customSink
  | fileSink (logPrefix log_directory : String) (level : LEVELS)
  deriving DecidableEq

/-- The threshold that `InitG3Logging` sets. -/
def Flags.g_stderrthreshold (flags : Flags) : Int :=
  if flags.logtostderr || flags.alsologtostderr then G3LOG_DEBUG.value
  else match flags.stderrthreshold with
    | 0 => G3LOG_DEBUG.value
    | 1 => G3LOG_WARNING.value
    | 2 => G3LOG_ERROR.value
    | 3 => G3LOG_FATAL.value
    | _ => G3LOG_ERROR.value

section
variable {R : Type}

/-- The sinks that `InitG3Logging` adds. -/
def Flags.sinks (flags : Flags) (logPrefix : String) : List SinkKind :=
  if flags.logtostderr then [.customSink]
  else
    [.customSink, .fileSink logPrefix flags.log_dir G3LOG_ERROR,
      .fileSink logPrefix flags.log_dir G3LOG_WARNING,
      .fileSink logPrefix flags.log_dir G3LOG_INFO]

def InitG3Logging (flags : Flags) (logPrefix : String) : List (Op SinkKind R) :=
  (flags.sinks logPrefix).map fun kind => .addSink kind fun _ k => k

/-- The sink that an operation makes. -/
def Op.kind : Op SinkKind R → Option SinkKind
  | .addSink kind _ => some kind
  | _ => none

/-- A client adds no sinks but those of `InitG3Logging`. -/
def Flags.Begins (flags : Flags) (program : List (Op SinkKind R)) : Prop :=
  ∃ rest : List (Op SinkKind R), (∀ op ∈ rest, op.kind = none) ∧
    (program = rest ∨ ∃ logPrefix, program = InitG3Logging flags logPrefix ++ rest)

/-! ## The worker and the console -/

/-- A worker with the kinds of its sinks, and the lines on the console with the sinks that
printed them. -/
structure Console (R : Type) where
  worker : State SinkKind R
  kinds : SinkId → Option SinkKind
  g_stderrthreshold : Int
  clog : List (SinkId × String)

inductive ConsoleAction
  | thread (a : Action)
  | SetStderrLogging (level : LEVELS)

namespace Console

/-- What the log call of a sink prints. -/
def printed (env : Env) (C : Console R) (a : Action) : List (SinkId × String) :=
  match C.worker.effect a with
  | .log s msg =>
      if C.kinds s = some .customSink then
        (CustomSink.PrintMessage env C.g_stderrthreshold msg).map fun line => (s, line)
      else []
  | _ => []

/-- The sink is made in the argument of `addSink`. -/
def kindsAfter (C : Console R) (a : Action) (s : SinkId) : Option SinkKind :=
  match a with
  | .client c fresh =>
      match (C.worker.clients c).pc, (C.worker.clients c).program with
      | .idle, .addSink kind _ :: _ => if s = fresh then some kind else C.kinds s
      | _, _ => C.kinds s
  | _ => C.kinds s

def step (env : Env) (C : Console R) : ConsoleAction → Option (Console R)
  | .thread a =>
      (G3log.step C.worker a).map fun worker =>
        { C with
          worker := worker
          kinds := C.kindsAfter a
          clog := C.clog ++ C.printed env a }
  | .SetStderrLogging level => some { C with g_stderrthreshold := level.value }

/-- The lines that a sink has printed. -/
def lines (C : Console R) (s : SinkId) : List String :=
  (C.clog.filter fun line => line.1 = s).map Prod.snd

/-- The threshold is set to nothing below `lo` or above `hi`. -/
def Between (lo hi : Int) (_ : Console R) : ConsoleAction → Prop
  | .thread _ => True
  | .SetStderrLogging level => lo ≤ level.value ∧ level.value ≤ hi

end Console

/-- The runs from `InitG3Logging` on, which any clients may have called. -/
def console (R : Type) (env : Env) (flags : Flags) : System (Console R) ConsoleAction where
  Start C := ∃ programs active, (∀ c, flags.Begins (programs c)) ∧
    C = ⟨init programs active, fun _ => none, flags.g_stderrthreshold, []⟩
  step := Console.step env

/-! ## What is printed -/

/-- The messages at or above `hi` have been printed, and none below `lo`, in order. -/
structure Prints (env : Env) (lo hi : Int) (lines : List String) (logged : List LogMessage) :
    Prop where
  above : (logged.flatMap (CustomSink.PrintMessage env hi)).Sublist lines
  below : lines.Sublist (logged.flatMap (CustomSink.PrintMessage env lo))

variable {env : Env} {lo hi : Int}

theorem prints_nil : Prints env lo hi [] [] := ⟨.slnil, .slnil⟩

/-- Messages are logged while the threshold is between the two. -/
theorem Prints.log {lines : List String} {logged : List LogMessage}
    (h : Prints env lo hi lines logged) {threshold : Int} (hlo : lo ≤ threshold)
    (hhi : threshold ≤ hi) (msgs : List LogMessage) :
    Prints env lo hi (lines ++ msgs.flatMap (CustomSink.PrintMessage env threshold))
      (logged ++ msgs) := by
  constructor
  · rw [List.flatMap_append]
    exact h.above.append (CustomSink.printMessages_sublist env hhi msgs)
  · rw [List.flatMap_append]
    exact h.below.append (CustomSink.printMessages_sublist env hlo msgs)

/-- Every custom sink has printed what it logged, and no other sink anything. -/
structure Prints.Inv (env : Env) (lo hi : Int) (C : Console R) : Prop where
  threshold : lo ≤ C.g_stderrthreshold ∧ C.g_stderrthreshold ≤ hi
  made : ∀ s, (C.kinds s).isSome = (C.worker.sinks s).created
  others : ∀ s, C.kinds s ≠ some .customSink → C.lines s = []
  prints : ∀ s, C.kinds s = some .customSink →
    Prints env lo hi (C.lines s) (C.worker.sinks s).logged

theorem lines_append (C : Console R) (worker : State SinkKind R)
    (kinds : SinkId → Option SinkKind) (threshold : Int) (clog : List (SinkId × String))
    (s : SinkId) :
    Console.lines ⟨worker, kinds, threshold, C.clog ++ clog⟩ s =
      C.lines s ++ (clog.filter fun line => line.1 = s).map Prod.snd := by
  simp [Console.lines]

/-- What one sink prints in a step. -/
theorem lines_printed (C : Console R) (a : Action) (s : SinkId) :
    ((C.printed env a).filter fun line => line.1 = s).map Prod.snd =
      if C.kinds s = some .customSink then
        ((C.worker.effect a).logs s).flatMap (CustomSink.PrintMessage env C.g_stderrthreshold)
      else [] := by
  rw [Console.printed]
  cases heffect : C.worker.effect a with
  | none | destroy s' => simp
  | log s' msg =>
      simp only [Effect.logs]
      by_cases hs : s' = s
      · subst hs
        split <;> simp [List.filter_map, Function.comp_def]
      · split <;> simp [hs, List.filter_map, Function.comp_def]

/-- A sink gets its kind when it is made. -/
theorem kindsAfter_eq {C : Console R} {a : Action} {worker : State SinkKind R}
    (hs : Step C.worker a worker) (s : SinkId) :
    C.kindsAfter a s = C.kinds s ∧ (worker.sinks s).created = (C.worker.sinks s).created ∨
      (C.kindsAfter a s).isSome = true ∧ (C.worker.sinks s).created = false ∧
        (worker.sinks s).created = true ∧ (C.worker.effect a).logs s = [] := by
  by_cases hmakes : ∃ c kind call rest, a = .client c s ∧
      (C.worker.clients c).pc = .idle ∧ (C.worker.clients c).program = .addSink kind call :: rest
  · obtain ⟨c, kind, call, rest, rfl, hpc, hprogram⟩ := hmakes
    have hkind : (C.kindsAfter (.client c s) s).isSome = true := by
      simp [Console.kindsAfter, hpc, hprogram]
    have hlogs : (C.worker.effect (.client c s)).logs s = [] := by
      rw [State.effect, hpc]
      rfl
    cases hs with
    | client _ hs =>
        cases hs with
        | make _ _ hnew => exact .inr ⟨hkind, hnew, by simp [Sink.make], hlogs⟩
        | save _ hprogram' | lock _ hprogram' | gone _ hprogram' | fatal _ hprogram'
        | destroy _ hprogram' => simp [hprogram] at hprogram'
        | destroyShared hpc' => simp [hpc] at hpc'
        | _ hpc' => simp [hpc] at hpc'
  · refine .inl ⟨?_, (hs.created_eq_or s).resolve_right hmakes⟩
    cases a with
    | client c fresh =>
        simp only [Console.kindsAfter]
        split
        · next kind call rest hpc hprogram =>
            refine if_neg ?_
            rintro rfl
            exact hmakes ⟨c, kind, call, rest, rfl, hpc, hprogram⟩
        · rfl
    | _ => rfl

theorem Prints.Inv.kinds_eq_none {C : Console R} (h : Prints.Inv env lo hi C) {s : SinkId}
    (hs : (C.worker.sinks s).created = false) : C.kinds s = none := by
  rw [← Option.not_isSome_iff_eq_none, h.made, hs]
  exact Bool.false_ne_true

theorem Prints.Inv.step {C C' : Console R} {a : ConsoleAction} (h : Prints.Inv env lo hi C)
    (ho : Owned C.worker) (hbetween : C.Between lo hi a) (hstep : C.step env a = some C') :
    Prints.Inv env lo hi C' := by
  cases a with
  | SetStderrLogging level =>
      obtain rfl := Option.some.inj hstep
      exact ⟨hbetween, h.made, h.others, h.prints⟩
  | thread a =>
      obtain ⟨worker, hworker, rfl⟩ := Option.map_eq_some_iff.mp hstep
      have hs := (step_cases hworker).2
      have htouched := hs.touches ho
      constructor
      · exact h.threshold
      · intro s
        rcases kindsAfter_eq hs s with ⟨hkinds, hsame⟩ | ⟨hkind, -, hnew, -⟩
        · exact (congrArg Option.isSome hkinds).trans ((h.made s).trans hsame.symm)
        · exact hkind.trans hnew.symm
      · intro s hkind
        have hold : C.kinds s ≠ some .customSink := by
          rcases kindsAfter_eq hs s with ⟨hkinds, -⟩ | ⟨-, hfresh, -⟩
          · rwa [← hkinds]
          · simp [h.kinds_eq_none hfresh]
        rw [lines_append, lines_printed, if_neg hold, List.append_nil]
        exact h.others s hold
      · intro s hkind
        rw [lines_append, lines_printed, (htouched s).logged]
        rcases kindsAfter_eq hs s with ⟨hkinds, -⟩ | ⟨-, hfresh, -, hlogs⟩
        · have hold : C.kinds s = some .customSink := hkinds.symm.trans hkind
          rw [if_pos hold]
          exact (h.prints s hold).log h.threshold.1 h.threshold.2 _
        · have hnone : C.kinds s ≠ some .customSink := by simp [h.kinds_eq_none hfresh]
          rw [if_neg hnone, h.others s hnone, hlogs, ho.held.unmade s hfresh]
          exact prints_nil

/-- Along a run the worker makes a run of its own. -/
theorem worker_reachable {flags : Flags} {Ok : Console R → ConsoleAction → Prop} {C : Console R}
    (h : (console R env flags).ReachableBy Ok C) : (logWorker SinkKind R).Reachable C.worker := by
  apply h.refines
  · rintro _ ⟨programs, active, -, rfl⟩
    exact ⟨programs, active, rfl⟩
  · intro C a C' _ _ hstep
    cases a with
    | SetStderrLogging level =>
        obtain rfl := Option.some.inj hstep
        exact .inl rfl
    | thread a =>
        obtain ⟨worker, hworker, rfl⟩ := Option.map_eq_some_iff.mp hstep
        exact .inr ⟨a, hworker⟩

theorem prints_inv {flags : Flags} {C : Console R} (hlo : lo ≤ flags.g_stderrthreshold)
    (hhi : flags.g_stderrthreshold ≤ hi)
    (h : (console R env flags).ReachableBy (Console.Between lo hi) C) :
    Prints.Inv env lo hi C := by
  refine h.invariant ?_ fun C a C' hC hbetween hinv hstep =>
    hinv.step (owned (worker_reachable hC)) hbetween hstep
  rintro _ ⟨programs, active, -, rfl⟩
  exact ⟨⟨hlo, hhi⟩, fun _ => rfl, fun _ _ => rfl, fun s hs => by cases hs⟩

/-- With no threshold but one, it is known what is printed. -/
theorem Prints.eq {lines : List String} {logged : List LogMessage}
    (h : Prints env lo lo lines logged) :
    lines = logged.flatMap (CustomSink.PrintMessage env lo) :=
  h.below.antisymm h.above

/-! ## The sinks of the worker -/

theorem program_suffix {σ σ' : State SinkKind R} {a : Action} (hs : Step σ a σ') (c : ClientId) :
    (σ'.clients c).program <:+ (σ.clients c).program := by
  by_cases ha : a.mover = some c
  · cases a with
    | client c' fresh =>
        obtain rfl : c' = c := Option.some.inj ha
        cases hs with
        | client _ hs =>
            cases hs with
            | save _ hprogram | make _ hprogram | lock _ hprogram | gone _ hprogram
            | fatal _ hprogram | destroy _ hprogram =>
                simp [hprogram, List.suffix_cons]
            | _ => simp [State.afterRelease, State.destroySink]
    | _ => cases ha
  · rw [hs.clients_eq ha]

/-- All sinks, made or still to be made, are those of `InitG3Logging`. -/
structure OfInit (flags : Flags) (C : Console R) : Prop where
  program : ∀ c, ∀ op ∈ (C.worker.clients c).program, ∀ kind, op.kind = some kind →
    ∃ logPrefix, kind ∈ flags.sinks logPrefix
  kinds : ∀ s kind, C.kinds s = some kind → ∃ logPrefix, kind ∈ flags.sinks logPrefix

theorem Flags.Begins.kind {flags : Flags} {program : List (Op SinkKind R)}
    (h : flags.Begins program) {op : Op SinkKind R} (hop : op ∈ program) {kind : SinkKind}
    (hkind : op.kind = some kind) : ∃ logPrefix, kind ∈ flags.sinks logPrefix := by
  obtain ⟨rest, hrest, rfl | ⟨logPrefix, rfl⟩⟩ := h
  · simp [hrest op hop] at hkind
  · rcases List.mem_append.mp hop with hop | hop
    · obtain ⟨kind', hmem, rfl⟩ := List.mem_map.mp hop
      obtain rfl := Option.some.inj hkind
      exact ⟨logPrefix, hmem⟩
    · simp [hrest op hop] at hkind

theorem OfInit.step {flags : Flags} {C C' : Console R} {a : ConsoleAction} (h : OfInit flags C)
    (hstep : C.step env a = some C') : OfInit flags C' := by
  cases a with
  | SetStderrLogging level =>
      obtain rfl := Option.some.inj hstep
      exact ⟨h.program, h.kinds⟩
  | thread a =>
      obtain ⟨worker, hworker, rfl⟩ := Option.map_eq_some_iff.mp hstep
      have hs := (step_cases hworker).2
      refine ⟨fun c op hop => h.program c op ((program_suffix hs c).subset hop), ?_⟩
      intro s kind hkind
      cases a with
      | client c fresh =>
          simp only [Console.kindsAfter] at hkind
          split at hkind
          · next made call rest hpc hprogram =>
              split at hkind
              · obtain rfl := Option.some.inj hkind
                exact h.program c (.addSink made call) (by simp [hprogram]) made rfl
              · exact h.kinds s kind hkind
          · exact h.kinds s kind hkind
      | _ => exact h.kinds s kind hkind

theorem ofInit {flags : Flags} {Ok : Console R → ConsoleAction → Prop} {C : Console R}
    (h : (console R env flags).ReachableBy Ok C) : OfInit flags C := by
  refine h.invariant ?_ fun C a C' _ _ hC hstep => hC.step hstep
  rintro _ ⟨programs, active, hbegins, rfl⟩
  exact ⟨fun c op hop kind hkind => (hbegins c).kind hop hkind, fun s kind hkind => by cases hkind⟩

/-! ## The log on the console -/

/-- The console has the messages that custom sinks have logged, as far as the threshold lets them
through, and the sinks log what is saved. The worker has no sinks but those of `InitG3Logging`,
each of which is known. -/
theorem console_prints {flags : Flags} (hlo : lo ≤ flags.g_stderrthreshold)
    (hhi : flags.g_stderrthreshold ≤ hi) {C : Console R}
    (h : (console R env flags).ReachableBy (Console.Between lo hi) C) :
    (∀ s, C.kinds s = some .customSink →
      Prints env lo hi (C.lines s) (C.worker.sinks s).logged ∧
        (C.worker.sinks s).logged <+: C.worker.enqueuedFor s ∧
        (C.worker.destroyed = true → (∀ c, (C.worker.clients c).pc.usesSink = false) →
          (C.worker.sinks s).logged = C.worker.enqueuedFor s)) ∧
      (∀ s, C.kinds s ≠ some .customSink → C.lines s = []) ∧
      (∀ s kind, C.kinds s = some kind → ∃ logPrefix, kind ∈ flags.sinks logPrefix) ∧
      ∀ s, (C.worker.sinks s).created = true → ∃ kind, C.kinds s = some kind := by
  have hreach := worker_reachable h
  have hinv := prints_inv hlo hhi h
  refine ⟨fun s hs => ⟨hinv.prints s hs, logged_prefix_enqueuedFor hreach s, ?_⟩, hinv.others,
    (ofInit h).kinds, ?_⟩
  · exact fun hdestroyed hquiet => drained_of_destroyed hreach hdestroyed hquiet s
  · intro s hcreated
    exact Option.isSome_iff_exists.mp ((hinv.made s).trans hcreated)

end

/-- The log goes to stderr only, one client saves a message and one destroys the worker. -/
def consoleFlags : Flags := ⟨2, true, false, "/tmp/"⟩

def consoleCrew : ClientId → List (Op SinkKind Unit)
  | 0 => [.destroy]
  | 1 => InitG3Logging consoleFlags "log"
  | 2 => [.save greeting]
  | _ => []

theorem begins_consoleCrew (c : ClientId) : consoleFlags.Begins (consoleCrew c) := by
  match c with
  | 0 => exact ⟨[.destroy], by simp [Op.kind], .inl rfl⟩
  | 1 => exact ⟨[], by simp, .inr ⟨"log", rfl⟩⟩
  | 2 => exact ⟨[.save greeting], by simp [Op.kind], .inl rfl⟩
  | _ + 3 => exact ⟨[], by simp, .inl rfl⟩

/-- The greeting is on the console, and all that the sink has logged. -/
theorem console_prints_greeting :
    ∃ C : Console Unit, C.worker.destroyed = true ∧ (C.lines 0).length = 1 ∧
      C.lines 0 =
        (C.worker.sinks 0).logged.flatMap (CustomSink.PrintMessage FileSink.epoch 100) := by
  have hrun : ((console Unit FileSink.epoch consoleFlags).runBy
      (fun _ a => match a with
        | .thread _ => true
        | .SetStderrLogging _ => false)
      ⟨init consoleCrew true, fun _ => none, consoleFlags.g_stderrthreshold, []⟩
      (deliverRun.map .thread)).any
        (fun C => C.worker.destroyed && (C.lines 0).length == 1 &&
          decide (C.kinds 0 = some .customSink)) = true := by decide +kernel
  obtain ⟨C, hC, hend⟩ := (Option.any_eq_true _ _).mp hrun
  simp only [Bool.and_eq_true, beq_iff_eq, decide_eq_true_eq] at hend
  obtain ⟨⟨hdestroyed, hlength⟩, hkind⟩ := hend
  have hstart : (console Unit FileSink.epoch consoleFlags).Start
      ⟨init consoleCrew true, fun _ => none, consoleFlags.g_stderrthreshold, []⟩ :=
    ⟨consoleCrew, true, begins_consoleCrew, rfl⟩
  have h : (console Unit FileSink.epoch consoleFlags).ReachableBy (Console.Between 100 100) C := by
    refine (System.reachableBy_of_runBy (.start hstart) hC).mono fun C a ha => ?_
    cases a with
    | thread a => trivial
    | SetStderrLogging level => cases ha
  obtain ⟨hprints, -⟩ := console_prints (by decide) (by decide) h
  exact ⟨C, hdestroyed, hlength, (hprints 0 hkind).1.eq⟩

end G3log
