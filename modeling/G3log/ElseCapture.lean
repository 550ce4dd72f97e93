import G3log.Lib.Statements
import G3log.LogStatements

/-!
# Log statements and the else behind them

Most macros that log expand to an `if` without an `else`. Between an `if` of the program
and its `else` such a statement takes the `else` for its own. `GLOG_LOG` is an expression and
`GLOG_LOGF` has an `else`, so these do not; `as_written_iff` says what the others do.

## Main definitions

* `Expr`, `Surroundings`, `Expr.eval` -- the expressions of the macros.
* `LogMacro`, `LogMacro.expansion` -- the macros.
* `LogMacro.elseReached` -- the macro comes to an `else` behind it.
-/

namespace G3log

open Statements

universe u v

/-- What logs, at the end of a macro. The message is what the program streams or formats. -/
inductive CaptureExpr (α : Type u) (β : Type u)
  /-- `INTERNAL_LOG_MESSAGE(level).stream() << …` -/
  | stream (level : LEVELS) (message : α)
  /-- `INTERNAL_LOG_MESSAGE(level).capturef(…)` -/
  | capturef (level : LEVELS) (message : α)
  /-- `INTERNAL_CONTRACT_MESSAGE(#boolean_expression).stream() << …` -/
  | contractStream (boolean_expression : β) (message : α)
  /-- `INTERNAL_CONTRACT_MESSAGE(#boolean_expression).capturef(…)` -/
  | contractCapturef (boolean_expression : β) (message : α)
  deriving DecidableEq

/-- The boolean expression of a macro, over the expressions that a program writes. -/
inductive Condition (α : Type u)
  | arg (a : α)
  /-- `FLAGS_v >= (verboselevel)` -/
  | verbose (verboselevel : α)
  /-- `(val1) == (val2)` -/
  | eq (val1 val2 : α)
  deriving DecidableEq

/-- The expressions in an expanded program. -/
inductive Expr (α : Type u)
  | user (a : α)
  /-- `true == (boolean_expression)` -/
  | isTrue (boolean_expression : Condition α)
  /-- `false == (boolean_expression)` -/
  | isFalse (boolean_expression : Condition α)
  /-- `!(boolean_expression)` -/
  | not (boolean_expression : Condition α)
  /-- `g3::logLevel(level)` -/
  | logLevel (level : LEVELS)
  /-- `!g3::logLevel(level)` -/
  | notLogLevel (level : LEVELS)
  /-- `!g3::logLevel(level) || …` -/
  | notLogLevelOr (level : LEVELS) (capture : CaptureExpr α (Condition α))
  | capture (capture : CaptureExpr α (Condition α))
  deriving DecidableEq

/-! ## What the expressions do -/

/-- What log statements read, and the rest of the program. -/
structure World (υ : Type v) where
  log : LogState
  user : υ

/-- What the expressions of the program do, and what happens to a capture at the end of its
statement. They may have no result. -/
structure Surroundings (α : Type u) (υ : Type v) where
  eval : α → World υ → Option (Int × World υ)
  saveMessage : CaptureExpr α (Condition α) → World υ → Option (Int × World υ)

variable {α : Type u} {υ : Type v}

def ofBool (b : Bool) : Int := if b then 1 else 0

/-- Ask for a level, which may put it into the table. -/
def World.logLevel (level : LEVELS) (w : World υ) : Bool × World υ :=
  let (enabled, levels) := w.log.g_log_levels.logLevel level
  (enabled, { w with log := { w.log with g_log_levels := levels } })

def Condition.eval (env : Surroundings α υ) : Condition α → World υ → Option (Int × World υ)
  | .arg a, w => env.eval a w
  | .verbose verboselevel, w =>
      (env.eval verboselevel w).map fun r => (ofBool (decide (w.log.FLAGS_v ≥ r.1)), r.2)
  | .eq val1 val2, w =>
      (env.eval val1 w).bind fun r =>
        (env.eval val2 r.2).map fun r' => (ofBool (decide (r.1 = r'.1)), r'.2)

def Expr.eval (env : Surroundings α υ) : Expr α → World υ → Option (Int × World υ)
  | .user a, w => env.eval a w
  | .isTrue b, w => (b.eval env w).map fun r => (ofBool (decide (1 = r.1)), r.2)
  | .isFalse b, w => (b.eval env w).map fun r => (ofBool (decide (0 = r.1)), r.2)
  | .not b, w => (b.eval env w).map fun r => (ofBool (decide (r.1 = 0)), r.2)
  | .logLevel level, w => some (ofBool (w.logLevel level).1, (w.logLevel level).2)
  | .notLogLevel level, w => some (ofBool (!(w.logLevel level).1), (w.logLevel level).2)
  | .notLogLevelOr level c, w =>
      if (w.logLevel level).1 then env.saveMessage c (w.logLevel level).2
      else some (1, (w.logLevel level).2)
  | .capture c, w => env.saveMessage c w

/-! ## The macros -/

/-- A macro with its arguments and what the program streams into it. -/
inductive LogMacro (α : Type u)
  | GLOG_LOG (level : LEVELS) (message : α)
  | GLOG_LOG_IF (level : LEVELS) (boolean_expression : α) (message : α)
  | GLOG_VLOG (verboselevel : α) (message : α)
  | GLOG_LOGF (level : LEVELS) (message : α)
  | GLOG_LOGF_IF (level : LEVELS) (boolean_expression : α) (message : α)
  | CHECK (boolean_expression : α) (message : α)
  | CHECK_EQ (val1 val2 : α) (message : α)
  | CHECKF (boolean_expression : α) (message : α)
  deriving DecidableEq

namespace LogMacro

/-- `if (true == (b)) if (g3::logLevel(level)) …;` -/
def ifEnabled (b : Condition α) (level : LEVELS) (capture : CaptureExpr α (Condition α)) :
    List (Token (Expr α)) :=
  [.if_, .lparen, .expr (.isTrue b), .rparen,
    .if_, .lparen, .expr (.logLevel level), .rparen, .expr (.capture capture), .semicolon]

/-- `if (!(b)) …;` -/
def check (b : Condition α) (message : α) : List (Token (Expr α)) :=
  [.if_, .lparen, .expr (.not b), .rparen, .expr (.capture (.contractStream b message)),
    .semicolon]

/-- The tokens of the statement. -/
def expansion : LogMacro α → List (Token (Expr α))
  | .GLOG_LOG level message =>
      [.expr (.notLogLevelOr level (.stream level message)), .semicolon]
  | .GLOG_LOG_IF level boolean_expression message =>
      ifEnabled (.arg boolean_expression) level (.stream level message)
  | .GLOG_VLOG verboselevel message =>
      ifEnabled (.verbose verboselevel) G3LOG_DEBUG (.stream G3LOG_DEBUG message)
  | .GLOG_LOGF level message =>
      [.if_, .lparen, .expr (.notLogLevel level), .rparen, .lbrace, .rbrace, .else_,
        .expr (.capture (.capturef level message)), .semicolon]
  | .GLOG_LOGF_IF level boolean_expression message =>
      ifEnabled (.arg boolean_expression) level (.capturef level message)
  | .CHECK boolean_expression message => check (.arg boolean_expression) message
  | .CHECK_EQ val1 val2 message => check (.eq val1 val2) message
  | .CHECKF boolean_expression message =>
      [.if_, .lparen, .expr (.isFalse (.arg boolean_expression)), .rparen,
        .expr (.capture (.contractCapturef (.arg boolean_expression) message)), .semicolon]

/-- The tree of `ifEnabled`. -/
def ifEnabledStmt (b : Condition α) (level : LEVELS) (capture : CaptureExpr α (Condition α)) :
    Stmt (Expr α) :=
  .ifThen (.isTrue b) (.ifThen (.logLevel level) (.expr (.capture capture)))

def checkStmt (b : Condition α) (message : α) : Stmt (Expr α) :=
  .ifThen (.not b) (.expr (.capture (.contractStream b message)))

/-- The statement of the macro, on its own. -/
def statement : LogMacro α → Stmt (Expr α)
  | .GLOG_LOG level message => .expr (.notLogLevelOr level (.stream level message))
  | .GLOG_LOG_IF level boolean_expression message =>
      ifEnabledStmt (.arg boolean_expression) level (.stream level message)
  | .GLOG_VLOG verboselevel message =>
      ifEnabledStmt (.verbose verboselevel) G3LOG_DEBUG (.stream G3LOG_DEBUG message)
  | .GLOG_LOGF level message =>
      .ifElse (.notLogLevel level) (.block .nil) (.expr (.capture (.capturef level message)))
  | .GLOG_LOGF_IF level boolean_expression message =>
      ifEnabledStmt (.arg boolean_expression) level (.capturef level message)
  | .CHECK boolean_expression message => checkStmt (.arg boolean_expression) message
  | .CHECK_EQ val1 val2 message => checkStmt (.eq val1 val2) message
  | .CHECKF boolean_expression message =>
      .ifThen (.isFalse (.arg boolean_expression))
        (.expr (.capture (.contractCapturef (.arg boolean_expression) message)))

theorem tokens_statement (m : LogMacro α) : m.statement.tokens = m.expansion := by
  cases m <;> rfl

theorem wf_statement (m : LogMacro α) : m.statement.wf = true := by
  cases m <;> rfl

/-- The expansion of a macro is a statement. -/
theorem parse_expansion (m : LogMacro α) : parse m.expansion = some m.statement := by
  rw [← tokens_statement]
  exact parse_tokens _ m.wf_statement

/-- The macros that leave an `else` to the program. -/
def closed : LogMacro α → Bool
  | .GLOG_LOG _ _ => true
  | .GLOG_LOGF _ _ => true
  | _ => false

theorem isOpen_statement (m : LogMacro α) : m.statement.isOpen = !m.closed := by
  cases m <;> rfl

/-- The condition is one and the level not enabled. -/
def Disabled (env : Surroundings α υ) (b : Condition α) (level : LEVELS) (w : World υ) : Prop :=
  ∃ w', b.eval env w = some (1, w') ∧ ¬ w'.log.Enabled level

/-- The checked condition holds. -/
def Holds (env : Surroundings α υ) (b : Condition α) (w : World υ) : Prop :=
  ∃ v w', b.eval env w = some (v, w') ∧ v ≠ 0

/-- The macro comes to the `else` that it has taken: its own condition holds and the level is
disabled, or the contract is kept. -/
def elseReached (env : Surroundings α υ) (w : World υ) : LogMacro α → Prop
  | .GLOG_LOG _ _ => False
  | .GLOG_LOG_IF level boolean_expression _ => Disabled env (.arg boolean_expression) level w
  | .GLOG_VLOG verboselevel _ => Disabled env (.verbose verboselevel) G3LOG_DEBUG w
  | .GLOG_LOGF _ _ => False
  | .GLOG_LOGF_IF level boolean_expression _ => Disabled env (.arg boolean_expression) level w
  | .CHECK boolean_expression _ => Holds env (.arg boolean_expression) w
  | .CHECK_EQ val1 val2 _ => Holds env (.eq val1 val2) w
  | .CHECKF boolean_expression _ => Holds env (.arg boolean_expression) w

section
variable {env : Surroundings α υ} {w : World υ}

theorem ofBool_eq_zero (b : Bool) : ofBool b = 0 ↔ b = false := by
  cases b <;> simp [ofBool]

theorem dangles_ifEnabled (b : Condition α) (level : LEVELS)
    (capture : CaptureExpr α (Condition α)) :
    dangles (Expr.eval env) (ifEnabledStmt b level capture) w = true ↔
      Disabled env b level w := by
  have henabled (w' : World υ) :
      (w'.logLevel level).1 = false ↔ ¬ w'.log.Enabled level := by
    rw [← Bool.not_eq_true, not_iff_not]
    exact LevelTable.logLevel_fst level w'.log.g_log_levels
  simp only [ifEnabledStmt, dangles, Stmt.isOpen, if_true, Expr.eval, Option.any_eq_true,
    Option.map_eq_some_iff, Disabled]
  constructor
  · intro h
    obtain ⟨r, ⟨r', hb, rfl⟩, hr⟩ := h
    simp only [ne_eq, ofBool_eq_zero, decide_eq_false_iff_not, not_not, Bool.and_eq_true,
      decide_eq_true_eq, Option.any_some, Bool.false_eq_true, if_false] at hr
    refine ⟨r'.2, ?_, ?_⟩
    · rw [hb, hr.1]
    · exact (henabled r'.2).mp hr.2
  · intro h
    obtain ⟨w', hb, hdisabled⟩ := h
    refine ⟨(ofBool (decide ((1 : Int) = 1)), w'), ⟨(1, w'), hb, rfl⟩, ?_⟩
    simp [ofBool, (henabled w').mpr hdisabled]

theorem dangles_check (b : Condition α) (message : α) :
    dangles (Expr.eval env) (checkStmt b message) w = true ↔ Holds env b w := by
  simp only [checkStmt, dangles, Stmt.isOpen, Expr.eval, Option.any_eq_true,
    Option.map_eq_some_iff, Holds, Bool.false_eq_true, if_false]
  constructor
  · intro h
    obtain ⟨r, ⟨r', hb, rfl⟩, hr⟩ := h
    refine ⟨r'.1, r'.2, hb, ?_⟩
    simpa [ofBool_eq_zero] using hr
  · intro h
    obtain ⟨v, w', hb, hv⟩ := h
    refine ⟨_, ⟨(v, w'), hb, rfl⟩, ?_⟩
    simp [ofBool, hv]

theorem dangles_statement (m : LogMacro α) (w : World υ) :
    dangles (Expr.eval env) m.statement w = true ↔ m.elseReached env w := by
  cases m with
  | GLOG_LOG level message => simp [statement, dangles, elseReached]
  | GLOG_LOG_IF level b message => exact dangles_ifEnabled _ _ _
  | GLOG_VLOG verboselevel message => exact dangles_ifEnabled _ _ _
  | GLOG_LOGF level message => simp [statement, dangles, elseReached]
  | GLOG_LOGF_IF level b message => exact dangles_ifEnabled _ _ _
  | CHECK b message => exact dangles_check _ _
  | CHECK_EQ val1 val2 message => exact dangles_check _ _
  | CHECKF b message =>
      simp only [statement, dangles, Stmt.isOpen, Expr.eval, Option.any_eq_true,
        Option.map_eq_some_iff, elseReached, Holds, Bool.false_eq_true, if_false]
      constructor
      · intro h
        obtain ⟨r, ⟨r', hb, rfl⟩, hr⟩ := h
        refine ⟨r'.1, r'.2, hb, ?_⟩
        have hne : ¬ (0 : Int) = r'.1 := by simpa [ofBool_eq_zero] using hr
        omega
      · intro h
        obtain ⟨v, w', hb, hv⟩ := h
        refine ⟨_, ⟨(v, w'), hb, rfl⟩, ?_⟩
        simp [ofBool, Ne.symm hv]

end
end LogMacro

/-- Between an `if` of the program and its `else`, a macro leaves the `else` to the program if
and only if it is `GLOG_LOG` or `GLOG_LOGF`, or the condition of the program is not false and
the macro does not come to the `else`. -/
theorem as_written_iff (env : Surroundings α υ) (m : LogMacro α) (c : Expr α)
    (s : WfStmt (Expr α)) (w : World υ) :
    ∃ t, parse (.if_ :: .lparen :: .expr c :: .rparen ::
        (m.expansion ++ .else_ :: s.val.tokens)) = some t ∧
      (exec (Expr.eval env) t w = exec (Expr.eval env) (.ifElse c m.statement s.val) w ↔
        m.closed = true ∨
          ∀ r, c.eval env w = some r → r.1 ≠ 0 ∧ ¬ m.elseReached env r.2) := by
  have hparse := parse_around c ⟨m.statement, m.wf_statement⟩ s
  simp only [m.tokens_statement] at hparse
  refine ⟨_, hparse, ?_⟩
  rw [Stmt.around, m.isOpen_statement]
  cases hclosed : m.closed with
  | true => simp
  | false =>
      have hopen : m.statement.isOpen = true := by rw [m.isOpen_statement, hclosed]; rfl
      simp only [Bool.not_false, if_true, Bool.false_eq_true, false_or]
      rw [exec_graft_eq_iff c m.statement s.val hopen]
      simp only [← m.dangles_statement, Bool.not_eq_true]

/-- A program that writes truth values, and whose captures are well received. -/
def truthValues : Surroundings Bool Unit where
  eval := fun a w => some (ofBool a, w)
  saveMessage := fun _ w => some (1, w)

/-- `if (false) GLOG_LOG_IF(INFO, true) << …; else ;` comes to nothing. -/
theorem log_if_takes_else :
    ¬ ∀ (env : Surroundings Bool Unit) (m : LogMacro Bool) (c : Expr Bool)
      (s : WfStmt (Expr Bool)) (w : World Unit) (t : Stmt (Expr Bool)),
      parse (.if_ :: .lparen :: .expr c :: .rparen ::
          (m.expansion ++ .else_ :: s.val.tokens)) = some t →
        exec (Expr.eval env) t w = exec (Expr.eval env) (.ifElse c m.statement s.val) w := by
  intro h
  let m : LogMacro Bool := .GLOG_LOG_IF G3LOG_INFO true true
  let w : World Unit := ⟨LogState.start, ()⟩
  have heq := h truthValues m (.user false) ⟨.empty, rfl⟩ w
    (.ifThen (.user false) (m.statement.graft .empty)) rfl
  have hcaptured : (exec (Expr.eval truthValues)
      (.ifThen (.user false) (m.statement.graft .empty)) w).map (fun r => r.2.length) =
        some 1 := rfl
  have hwritten : (exec (Expr.eval truthValues)
      (.ifElse (.user false) m.statement .empty) w).map (fun r => r.2.length) = some 2 := rfl
  rw [heq, hwritten] at hcaptured
  cases hcaptured

end G3log
