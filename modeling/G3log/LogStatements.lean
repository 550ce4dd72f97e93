import G3log.LevelQueries
import G3log.LogCapture

/-!
# Log statements

The eight forms of a log statement, with `G3_DYNAMIC_LOGGING`. Each asks `logLevel` whether
its level is enabled, next to conditions and to the `static` counters that every place in
the source has for itself; but one form does not ask. What passes is captured, and the
capture is handed to `saveMessage` at the end of the statement.

## Main definitions

* `Statement`, `Statement.execute` -- the macros.
* `LogState`, `LogAction`, `LogState.step` -- statements among changes to the level table.
* `Always` -- every action of a run meets a condition on the state it finds.
* `Ungated` -- the one statement that logs without asking.
-/

namespace G3log

/-- Where a statement stands in the source. -/
structure Site where
  file : String
  line : Int
  function : String
  deriving DecidableEq, Repr

/-- The `static int`s of a place in the source. -/
structure Counters where
  LOG_OCCURRENCES : Int
  LOG_OCCURRENCES_MOD_N : Int
  deriving DecidableEq, Repr

/-- A log statement, its arguments evaluated. -/
inductive Statement
  | GLOG_LOG (level : LEVELS) (text : List Char)
  | GLOG_LOG_IF (level : LEVELS) (boolean_expression : Bool) (text : List Char)
  | GLOG_LOG_EVERY_N (level : LEVELS) (n : Int) (text : List Char)
  | GLOG_LOG_IF_EVERY_N (level : LEVELS) (condition : Bool) (n : Int) (text : List Char)
  | LOG_FIRST_N (level : LEVELS) (n : Int) (text : List Char)
  | GLOG_VLOG (verboselevel : Int) (text : List Char)
  | GLOG_LOGF (level : LEVELS) (printf_like_message : List Char) (expansion : Expansion)
  | GLOG_LOGF_IF (level : LEVELS) (boolean_expression : Bool) (printf_like_message : List Char)
      (expansion : Expansion)

/-- What log statements read and write. -/
structure LogState where
  g_log_levels : LevelTable
  FLAGS_v : Int
  MaxMessageSize : Int
  counters : Site → Counters

/-- A sum or difference of two values of type `int`. -/
def wrapInt (n : Int) : Int := Int.bmod n 4294967296

/-- The capture at a place in the source. -/
def INTERNAL_LOG_MESSAGE (site : Site) (stackdump : String) (level : LEVELS) : LogCapture :=
  .new stackdump site.file site.line site.function level

def LogCapture.stream (text : List Char) (c : LogCapture) : LogCapture :=
  { c with _stream := c._stream ++ text }

namespace LogState

/-- Ask for the level, and capture if it is enabled. -/
def gate (level : LEVELS) (capture : LogCapture) (σ : LogState) : LogState × Option LogCapture :=
  let (enabled, levels) := σ.g_log_levels.logLevel level
  ({ σ with g_log_levels := levels }, if enabled then some capture else none)

def count (site : Site) (k : Counters) (σ : LogState) : LogState :=
  { σ with counters := Function.update σ.counters site k }

@[simp] theorem counters_count (site : Site) (k : Counters) (σ : LogState) :
    (σ.count site k).counters site = k := by
  simp only [LogState.count, Function.update_self]

@[simp] theorem count_count (site : Site) (k k' : Counters) (σ : LogState) :
    (σ.count site k).count site k' = σ.count site k' := by
  simp only [LogState.count, Function.update_idem]

@[simp] theorem count_self (site : Site) (σ : LogState) :
    σ.count site (σ.counters site) = σ := by
  simp only [LogState.count, Function.update_eq_self]

end LogState

/-- `GLOG_LOG_IF`, which `GLOG_VLOG` expands to. -/
def logIf (level : LEVELS) (boolean_expression : Bool) (capture : LogCapture) (σ : LogState) :
    LogState × Option LogCapture :=
  if boolean_expression then σ.gate level capture else (σ, none)

/-- The state after a statement, and what is handed to `saveMessage`. A remainder by zero
has no outcome. -/
def Statement.execute (site : Site) (stackdump : String) (σ : LogState) :
    Statement → Option (LogState × Option LogCapture)
  | .GLOG_LOG level text =>
      some (σ.gate level ((INTERNAL_LOG_MESSAGE site stackdump level).stream text))
  | .GLOG_LOG_IF level boolean_expression text =>
      some (logIf level boolean_expression
        ((INTERNAL_LOG_MESSAGE site stackdump level).stream text) σ)
  | .GLOG_LOG_EVERY_N level n text =>
      let k := σ.counters site
      let next := wrapInt (k.LOG_OCCURRENCES_MOD_N + 1)
      let modN := if next > n then wrapInt (next - n) else next
      let σ' := σ.count site ⟨wrapInt (k.LOG_OCCURRENCES + 1), modN⟩
      some (if modN = 1 then
          σ'.gate level ((INTERNAL_LOG_MESSAGE site stackdump level).stream text)
        else (σ', none))
  | .GLOG_LOG_IF_EVERY_N level condition n text =>
      let k := { σ.counters site with
        LOG_OCCURRENCES := wrapInt ((σ.counters site).LOG_OCCURRENCES + 1) }
      if condition = false then some (σ.count site k, none)
      else if n = 0 then none
      else
        let modN := (wrapInt (k.LOG_OCCURRENCES_MOD_N + 1)).tmod n
        -- `logLevel` is not asked.
        some (σ.count site { k with LOG_OCCURRENCES_MOD_N := modN },
          if modN = Int.tmod 1 n then
            some ((INTERNAL_LOG_MESSAGE site stackdump level).stream text)
          else none)
  | .LOG_FIRST_N level n text =>
      let k := σ.counters site
      let occurrences :=
        if k.LOG_OCCURRENCES ≤ n then wrapInt (k.LOG_OCCURRENCES + 1) else k.LOG_OCCURRENCES
      let σ' := σ.count site { k with LOG_OCCURRENCES := occurrences }
      some (if occurrences ≤ n then
          σ'.gate level ((INTERNAL_LOG_MESSAGE site stackdump level).stream text)
        else (σ', none))
  | .GLOG_VLOG verboselevel text =>
      some (logIf G3LOG_DEBUG (decide (σ.FLAGS_v ≥ verboselevel))
        ((INTERNAL_LOG_MESSAGE site stackdump G3LOG_DEBUG).stream text) σ)
  | .GLOG_LOGF level printf_like_message expansion =>
      some (σ.gate level ((INTERNAL_LOG_MESSAGE site stackdump level).capturef
        σ.MaxMessageSize printf_like_message expansion))
  | .GLOG_LOGF_IF level boolean_expression printf_like_message expansion =>
      some (logIf level boolean_expression ((INTERNAL_LOG_MESSAGE site stackdump level).capturef
        σ.MaxMessageSize printf_like_message expansion) σ)

/-- A statement at a place in the source, or a change to what it reads. -/
inductive LogAction
  | log (site : Site) (stackdump : String) (statement : Statement)
  | change (op : LevelTable.Op)
  | setFLAGS_v (v : Int)
  | setMaxMessageSize (max_size : ℕ)

namespace LogState

def step (σ : LogState) : LogAction → Option (LogState × Option LogCapture)
  | .log site stackdump statement => statement.execute site stackdump σ
  | .change op => some ({ σ with g_log_levels := σ.g_log_levels.apply op }, none)
  | .setFLAGS_v v => some ({ σ with FLAGS_v := v }, none)
  | .setMaxMessageSize max_size =>
      some ({ σ with MaxMessageSize := G3log.setMaxMessageSize max_size }, none)

/-- Each action of a run meets a condition on the state it finds. -/
def Always (P : LogState → LogAction → Prop) : LogState → List LogAction → Prop
  | _, [] => True
  | σ, a :: actions => P σ a ∧ ∀ σ' out, σ.step a = some (σ', out) → Always P σ' actions

theorem always_congr {P Q : LogState → LogAction → Prop} (h : ∀ σ a, P σ a ↔ Q σ a)
    (σ : LogState) (actions : List LogAction) : σ.Always P actions ↔ σ.Always Q actions := by
  induction actions generalizing σ with
  | nil => rfl
  | cons a actions ih => simp only [Always, h, ih]

/-- A run can be tested for a condition that can be tested. -/
instance decidableAlways (P : LogState → LogAction → Prop) [∀ σ a, Decidable (P σ a)] :
    (σ : LogState) → (actions : List LogAction) → Decidable (σ.Always P actions)
  | _, [] => isTrue trivial
  | σ, a :: actions =>
      match h : σ.step a with
      | none => decidable_of_iff (P σ a) (by simp [Always, h])
      | some (σ', _) =>
          have := decidableAlways P σ' actions
          decidable_of_iff (P σ a ∧ σ'.Always P actions) (by simp [Always, h])

/-- A level that the table has enabled. -/
def Enabled (σ : LogState) (level : LEVELS) : Prop := σ.g_log_levels.getStatus level = .Enabled

instance (σ : LogState) (level : LEVELS) : Decidable (σ.Enabled level) :=
  inferInstanceAs (Decidable (_ = _))

/-- What is handed to `saveMessage` is of a level that is enabled. -/
def HandsEnabled (σ : LogState) (a : LogAction) : Prop :=
  ∀ σ' capture, σ.step a = some (σ', some capture) → σ.Enabled capture._level

/-- A `GLOG_LOG_IF_EVERY_N` whose condition holds and whose turn it is, at a level that is
not enabled. -/
def Ungated (σ : LogState) : LogAction → Prop
  | .log site _ (.GLOG_LOG_IF_EVERY_N level condition n _) =>
      condition = true ∧ n ≠ 0 ∧
        (wrapInt ((σ.counters site).LOG_OCCURRENCES_MOD_N + 1)).tmod n = Int.tmod 1 n ∧
        ¬ σ.Enabled level
  | _ => False

/-! ## Who asks -/

@[simp] theorem level_INTERNAL_LOG_MESSAGE (site : Site) (stackdump : String) (level : LEVELS) :
    (INTERNAL_LOG_MESSAGE site stackdump level)._level = level := rfl

@[simp] theorem level_stream (text : List Char) (c : LogCapture) :
    (c.stream text)._level = c._level := rfl

@[simp] theorem level_capturef (size : Int) (printf_like_message : List Char)
    (expansion : Expansion) (c : LogCapture) :
    (c.capturef size printf_like_message expansion)._level = c._level := by
  simp only [LogCapture.capturef]
  split
  · rfl
  · split
    · rfl
    · rfl

/-- What passes the gate is of an enabled level. The gate finds the table of the statement,
whose counters are another matter. -/
theorem enabled_of_gate {σ σ' σ'' : LogState} {level : LEVELS} {capture c : LogCapture}
    (htable : σ'.g_log_levels = σ.g_log_levels) (hlevel : capture._level = level)
    (h : σ'.gate level capture = (σ'', some c)) : σ.Enabled c._level := by
  have hout := congrArg Prod.snd h
  simp only [gate, Option.ite_none_right_eq_some, Option.some.injEq] at hout
  obtain ⟨hstatus, rfl⟩ := hout
  rw [htable] at hstatus
  rw [hlevel]
  exact (LevelTable.logLevel_fst level σ.g_log_levels).mp hstatus

theorem enabled_of_gate_if {σ σ' σ'' : LogState} {level : LEVELS} {capture c : LogCapture}
    {p : Prop} [Decidable p] (htable : σ'.g_log_levels = σ.g_log_levels)
    (hlevel : capture._level = level)
    (h : (if p then σ'.gate level capture else (σ', none)) = (σ'', some c)) :
    σ.Enabled c._level := by
  split at h
  · exact enabled_of_gate htable hlevel h
  · cases h

/-- The form that does not ask hands over its capture whenever its turn comes. -/
theorem handsEnabled_if_every_n (σ : LogState) (site : Site) (stackdump : String)
    (level : LEVELS) (condition : Bool) (n : Int) (text : List Char) :
    σ.HandsEnabled (.log site stackdump (.GLOG_LOG_IF_EVERY_N level condition n text)) ↔
      ¬ σ.Ungated (.log site stackdump (.GLOG_LOG_IF_EVERY_N level condition n text)) := by
  cases condition with
  | false => simp [HandsEnabled, Ungated, step, Statement.execute]
  | true =>
      by_cases hn : n = 0
      · simp [HandsEnabled, Ungated, step, Statement.execute, hn]
      · by_cases hturn : (wrapInt ((σ.counters site).LOG_OCCURRENCES_MOD_N + 1)).tmod n =
            Int.tmod 1 n
        · simp [HandsEnabled, Ungated, step, Statement.execute, hn, hturn]
        · simp [HandsEnabled, Ungated, step, Statement.execute, hn, hturn]

/-- A statement hands over what is enabled, but for the form that does not ask. -/
theorem handsEnabled_iff (σ : LogState) (a : LogAction) : σ.HandsEnabled a ↔ ¬ σ.Ungated a := by
  cases a with
  | change op => simp [HandsEnabled, Ungated, step]
  | setFLAGS_v v => simp [HandsEnabled, Ungated, step]
  | setMaxMessageSize max_size => simp [HandsEnabled, Ungated, step]
  | log site stackdump statement =>
      cases statement with
      | GLOG_LOG_IF_EVERY_N level condition n text =>
          exact handsEnabled_if_every_n σ site stackdump level condition n text
      | GLOG_LOG level text | GLOG_LOGF level printf_like_message expansion =>
          simp only [Ungated, not_false_eq_true, iff_true]
          intro σ' c h
          exact enabled_of_gate rfl (by simp) (Option.some.inj h)
      | GLOG_LOG_IF level b text | GLOG_VLOG verboselevel text
      | GLOG_LOGF_IF level b printf_like_message expansion
      | GLOG_LOG_EVERY_N level n text | LOG_FIRST_N level n text =>
          simp only [Ungated, not_false_eq_true, iff_true]
          intro σ' c h
          exact enabled_of_gate_if (by rfl) (by simp) (Option.some.inj h)

/-- In a run, whatever is handed to `saveMessage` is of an enabled level, if and only if no
`GLOG_LOG_IF_EVERY_N` logs at a level that is not. -/
theorem always_handsEnabled_iff (σ : LogState) (actions : List LogAction) :
    σ.Always HandsEnabled actions ↔ σ.Always (fun σ a => ¬ σ.Ungated a) actions :=
  always_congr handsEnabled_iff σ actions

/-- The state at program start. -/
def start : LogState where
  g_log_levels := LevelTable.defaults
  FLAGS_v := 0
  MaxMessageSize := 2048
  counters := fun _ => ⟨0, 0⟩

/-- *INFO* is disabled, and then logged on every occasion. -/
theorem not_always_handsEnabled :
    ¬ start.Always HandsEnabled [.change (.disable G3LOG_INFO),
      .log ⟨"main.cpp", 7, "main"⟩ "" (.GLOG_LOG_IF_EVERY_N G3LOG_INFO true 1 "tick".toList)] := by
  intro h
  obtain ⟨-, hrest⟩ := h
  obtain ⟨hlog, -⟩ := hrest _ none rfl
  have henabled := hlog _ _ rfl
  revert henabled
  decide

end LogState
end G3log
