import G3log.IntExpressions

/-!
# The arguments of the sampling macros

The sampling macros paste their arguments between operators without parentheses, so an
argument whose outermost operator binds too loosely is torn apart. One that binds tightly
enough is taken as if it were in parentheses.

## Main definitions

* `SamplingMacro.expansion`, `SamplingMacro.code` -- the macros.
* `SamplingMacro.logs` -- whether a statement logs.
* `SamplingMacro.takes` -- the arguments that stay whole.
* `SamplingMacro.statement` -- what a statement then does, by the values of its arguments.
-/

namespace G3log

open Precedence

/-! ## The macros -/

inductive SamplingMacro
  | GLOG_LOG_EVERY_N
  | GLOG_LOG_IF_EVERY_N
  | LOG_FIRST_N
  deriving DecidableEq

/-- The expressions of an expansion. -/
inductive Slot
  /-- `++LOG_OCCURRENCES` -/
  | count
  /-- The test before a counter is changed. -/
  | adjusts
  /-- `LOG_OCCURRENCES_MOD_N -= n` -/
  | adjust
  /-- The test that decides. -/
  | due
  /-- `g3::logLevel(level)` -/
  | logLevel
  /-- `INTERNAL_LOG_MESSAGE(level).stream() << …` -/
  | log
  deriving DecidableEq

namespace SamplingMacro

/-- The statements of a macro, in a block. The counters are `static` and start at zero. -/
def expansion : SamplingMacro → List (Statements.Token Slot)
  | .GLOG_LOG_EVERY_N =>
      [.lbrace, .expr .count, .semicolon,
        .if_, .lparen, .expr .adjusts, .rparen, .expr .adjust, .semicolon,
        .if_, .lparen, .expr .due, .rparen,
        .if_, .lparen, .expr .logLevel, .rparen, .expr .log, .semicolon, .rbrace]
  | .GLOG_LOG_IF_EVERY_N =>
      [.lbrace, .expr .count, .semicolon,
        .if_, .lparen, .expr .due, .rparen, .expr .log, .semicolon, .rbrace]
  | .LOG_FIRST_N =>
      [.lbrace, .if_, .lparen, .expr .adjusts, .rparen, .expr .count, .semicolon,
        .if_, .lparen, .expr .due, .rparen,
        .if_, .lparen, .expr .logLevel, .rparen, .expr .log, .semicolon, .rbrace]

/-- The tokens of its expressions, with the arguments pasted in. -/
def code (c e : List CToken) : SamplingMacro → Slot → List CToken
  | _, .count => [.unary .preIncrement, .atom .LOG_OCCURRENCES]
  | .GLOG_LOG_EVERY_N, .adjusts =>
      [.unary .preIncrement, .atom .LOG_OCCURRENCES_MOD_N, .binary .gt] ++ e
  | .GLOG_LOG_EVERY_N, .adjust => [.atom .LOG_OCCURRENCES_MOD_N, .assign .subtract] ++ e
  | .GLOG_LOG_EVERY_N, .due =>
      [.atom .LOG_OCCURRENCES_MOD_N, .binary .eq, .atom (.literal 1)]
  | .GLOG_LOG_IF_EVERY_N, .due =>
      c ++ [.binary .logicalAnd, .lparen, .lparen, .atom .LOG_OCCURRENCES_MOD_N, .assign .set,
        .lparen, .atom .LOG_OCCURRENCES_MOD_N, .binary .add, .atom (.literal 1), .rparen,
        .binary .mod] ++ e ++ [.rparen, .binary .eq,
        .lparen, .atom (.literal 1), .binary .mod] ++ e ++ [.rparen, .rparen]
  | .LOG_FIRST_N, .adjusts => [.atom .LOG_OCCURRENCES, .binary .le] ++ e
  | .LOG_FIRST_N, .due => [.atom .LOG_OCCURRENCES, .binary .le] ++ e
  | _, _ => []

/-- What the expressions of an expansion do. -/
def evalSlot (site : Site) (level : LEVELS) (code : Slot → List CToken) (s : Slot)
    (w : Variables) : Option (Int × Variables) :=
  match s with
  | .logLevel => some (ofBool (w.logLevel level).1, (w.logLevel level).2)
  | .log => some (1, w)
  | s => evalCode site (code s) w

/-- Whether a statement logs, with the variables and counters behind it. -/
def logs (m : SamplingMacro) (level : LEVELS) (c e : CTree) (site : Site) (w : Variables) :
    Option (Bool × Variables) :=
  (Statements.parse m.expansion).bind fun t =>
    (Statements.exec (evalSlot site level (m.code c.tokens e.tokens)) t w).map fun r =>
      (decide (.eval .log ∈ r.2), r.1)

/-! ## Arguments that stay whole -/

/-- The arguments that bind tightly enough for the operators next to them: a condition tighter
than `||`, an `n` of shifts and arithmetic next to a comparison, and one of no binary operator
next to a remainder. -/
def takes (condition n : Shape) : SamplingMacro → Bool
  | .GLOG_LOG_EVERY_N => BinaryOp.shl.level ≤ n.level
  | .GLOG_LOG_IF_EVERY_N =>
      BinaryOp.logicalAnd.level ≤ condition.level && BinaryOp.mod.level < n.level
  | .LOG_FIRST_N => BinaryOp.shl.level ≤ n.level

section
variable {site : Site} {level : LEVELS} {c e : CTree}

/-- The argument of `++LOG_OCCURRENCES_MOD_N > n` and of `LOG_OCCURRENCES <= n`. -/
theorem evalCode_comparison {o : BinaryOp} (ho : o.level = 8) {l : CTree}
    (hl : l.isUnary = true) (hlwf : l.wf cpp = true) (he : e.wf cpp = true)
    (hfits : BinaryOp.shl.level ≤ e.shape.level) (w : Variables) :
    evalCode site (l.tokens ++ .binary o :: e.tokens) w =
      CTree.eval site (.binary o l e) w := by
  have hlfits : l.fits cpp 8 = true := by
    cases l with
    | atom | paren | unary => rfl
    | binary | cond | assign => cases hl
  have hwf : (Tree.binary o l e : CTree).wf cpp = true := by
    have hlevel : cpp.level o = 8 := ho
    simp only [Tree.wf, Bool.and_eq_true, hlevel]
    exact ⟨⟨⟨hlfits, (e.fits_iff (by omega)).mpr hfits⟩, hlwf⟩, he⟩
  exact evalCode_tokens hwf site w

/-- `LOG_OCCURRENCES_MOD_N -= n` -/
theorem evalCode_adjust (he : e.wf cpp = true) (w : Variables) :
    evalCode site ([.atom .LOG_OCCURRENCES_MOD_N, .assign .subtract] ++ e.tokens) w =
      CTree.eval site (.assign .subtract (.atom .LOG_OCCURRENCES_MOD_N) e) w := by
  have hwf : (Tree.assign .subtract (.atom .LOG_OCCURRENCES_MOD_N) e : CTree).wf cpp = true := by
    simp [Tree.wf, Tree.fits, he]
  exact evalCode_tokens hwf site w

/-- The condition of `GLOG_LOG_IF_EVERY_N`. -/
def ifEveryN (c e : CTree) : CTree :=
  .binary .logicalAnd c
    (.paren (.binary .eq
      (.paren (.assign .set (.atom .LOG_OCCURRENCES_MOD_N)
        (.binary .mod (.paren (.binary .add (.atom .LOG_OCCURRENCES_MOD_N) (.atom (.literal 1))))
          e)))
      (.paren (.binary .mod (.atom (.literal 1)) e))))

theorem tokens_ifEveryN (c e : CTree) :
    (ifEveryN c e).tokens = GLOG_LOG_IF_EVERY_N.code c.tokens e.tokens .due := by
  simp [ifEveryN, Tree.tokens, code]

theorem evalCode_ifEveryN (hc : c.wf cpp = true) (he : e.wf cpp = true)
    (hcfits : BinaryOp.logicalAnd.level ≤ c.shape.level)
    (hefits : BinaryOp.mod.level < e.shape.level) (w : Variables) :
    evalCode site (GLOG_LOG_IF_EVERY_N.code c.tokens e.tokens .due) w =
      CTree.eval site (ifEveryN c e) w := by
  have hcfits' : c.fits cpp 3 = true := (c.fits_iff (by omega)).mpr hcfits
  have hefits' : e.fits cpp 12 = true := (e.fits_iff (by omega)).mpr hefits
  have hwf : (ifEveryN c e).wf cpp = true := by
    have hlevels : cpp.level .logicalAnd = 3 ∧ cpp.level .mod + 1 = 12 := ⟨rfl, rfl⟩
    simp only [ifEveryN, Tree.wf, hlevels, hc, he, hcfits', hefits', Bool.and_true]
    rfl
  rw [← tokens_ifEveryN]
  exact evalCode_tokens hwf site w

theorem evalCode_ifEveryN_paren (hc : c.wf cpp = true) (he : e.wf cpp = true) (w : Variables) :
    evalCode site (GLOG_LOG_IF_EVERY_N.code (Tree.tokens (.paren c)) (Tree.tokens (.paren e))
      .due) w = CTree.eval site (ifEveryN (.paren c) (.paren e)) w := by
  have hand : BinaryOp.logicalAnd.level ≤ Shape.primary.level := by decide
  have hmod : BinaryOp.mod.level < Shape.primary.level := by decide
  exact evalCode_ifEveryN (c := .paren c) (e := .paren e) hc he hand hmod w

theorem eval_binary_paren (o : BinaryOp) (l e : CTree) (w : Variables) :
    CTree.eval site (.binary o l (.paren e)) w = CTree.eval site (.binary o l e) w := by
  cases o <;> rfl

theorem evalCode_comparison_paren {o : BinaryOp} (ho : o.level = 8) {l : CTree}
    (hl : l.isUnary = true) (hlwf : l.wf cpp = true) (he : e.wf cpp = true)
    (hfits : BinaryOp.shl.level ≤ e.shape.level) (w : Variables) :
    evalCode site (l.tokens ++ .binary o :: Tree.tokens (.paren e)) w =
      evalCode site (l.tokens ++ .binary o :: e.tokens) w := by
  have hlevel : BinaryOp.shl.level ≤ Shape.primary.level := by decide
  rw [evalCode_comparison ho hl hlwf he hfits,
    evalCode_comparison (e := .paren e) ho hl hlwf he hlevel, eval_binary_paren]

/-- Parentheses change nothing around an argument that a macro takes. -/
theorem evalSlot_paren {m : SamplingMacro} (hc : c.wf cpp = true) (he : e.wf cpp = true)
    (htakes : m.takes c.shape e.shape = true) (s : Slot) (w : Variables) :
    evalSlot site level (m.code (Tree.tokens (.paren c)) (Tree.tokens (.paren e))) s w =
      evalSlot site level (m.code c.tokens e.tokens) s w := by
  cases m with
  | GLOG_LOG_EVERY_N =>
      have hfits : BinaryOp.shl.level ≤ e.shape.level := of_decide_eq_true htakes
      cases s with
      | adjusts =>
          exact evalCode_comparison_paren (o := .gt)
            (l := .unary .preIncrement (.atom .LOG_OCCURRENCES_MOD_N)) rfl rfl rfl he hfits w
      | adjust => exact (evalCode_adjust (e := .paren e) he w).trans (evalCode_adjust he w).symm
      | count | due | logLevel | log => rfl
  | GLOG_LOG_IF_EVERY_N =>
      simp only [takes, Bool.and_eq_true, decide_eq_true_eq] at htakes
      cases s with
      | due =>
          exact (evalCode_ifEveryN_paren hc he w).trans
            (evalCode_ifEveryN hc he htakes.1 htakes.2 w).symm
      | count | adjusts | adjust | logLevel | log => rfl
  | LOG_FIRST_N =>
      have hfits : BinaryOp.shl.level ≤ e.shape.level := of_decide_eq_true htakes
      cases s with
      | adjusts | due =>
          exact evalCode_comparison_paren (o := .le) (l := .atom .LOG_OCCURRENCES) rfl rfl rfl he
            hfits w
      | count | adjust | logLevel | log => rfl

theorem logs_congr {m : SamplingMacro} {c c' e e' : CTree}
    (h : ∀ s w, evalSlot site level (m.code c.tokens e.tokens) s w =
      evalSlot site level (m.code c'.tokens e'.tokens) s w) (w : Variables) :
    m.logs level c e site w = m.logs level c' e' site w := by
  have hslots : evalSlot site level (m.code c.tokens e.tokens) =
      evalSlot site level (m.code c'.tokens e'.tokens) := by
    funext s w
    exact h s w
  rw [logs, logs, hslots]

theorem logs_paren {m : SamplingMacro} (hc : c.wf cpp = true) (he : e.wf cpp = true)
    (htakes : m.takes c.shape e.shape = true) (w : Variables) :
    m.logs level (.paren c) (.paren e) site w = m.logs level c e site w :=
  logs_congr (fun s w => evalSlot_paren hc he htakes s w) w

end

/-! ## The statement of a macro -/

/-- The statement of a macro, with the values of its arguments. -/
def statement (level : LEVELS) (condition : Bool) (n : Int) (text : List Char) :
    SamplingMacro → Statement
  | .GLOG_LOG_EVERY_N => .GLOG_LOG_EVERY_N level n text
  | .GLOG_LOG_IF_EVERY_N => .GLOG_LOG_IF_EVERY_N level condition n text
  | .LOG_FIRST_N => .LOG_FIRST_N level n text

section
variable {site : Site} {level : LEVELS} {c e : CTree} {user : String → Int} {a n : Int}

theorem evalSlot_count (m : SamplingMacro) (c e : List CToken) (σ : LogState) :
    evalSlot site level (m.code c e) .count ⟨σ, user⟩ =
      some (wrapInt ((σ.counters site).LOG_OCCURRENCES + 1),
        ⟨σ.count site { σ.counters site with
          LOG_OCCURRENCES := wrapInt ((σ.counters site).LOG_OCCURRENCES + 1) }, user⟩) :=
  evalCode_tokens (t := .unary .preIncrement (.atom .LOG_OCCURRENCES)) rfl _ _

theorem evalSlot_adjusts (he : e.wf cpp = true) (hn : e.HasValue site user n)
    (hfits : BinaryOp.shl.level ≤ e.shape.level) (σ : LogState) :
    evalSlot site level (GLOG_LOG_EVERY_N.code c.tokens e.tokens) .adjusts ⟨σ, user⟩ =
      some (ofBool (decide (wrapInt ((σ.counters site).LOG_OCCURRENCES_MOD_N + 1) > n)),
        ⟨σ.count site { σ.counters site with
          LOG_OCCURRENCES_MOD_N := wrapInt ((σ.counters site).LOG_OCCURRENCES_MOD_N + 1) },
          user⟩) := by
  refine (evalCode_comparison (o := .gt)
    (l := .unary .preIncrement (.atom .LOG_OCCURRENCES_MOD_N)) rfl rfl rfl he hfits _).trans ?_
  simp only [CTree.eval, CTree.lvalue, Option.bind_some, Atom.store, Option.map_some, hn _,
    Atom.value, UnaryOp.apply, BinaryOp.apply]

theorem evalSlot_adjust (he : e.wf cpp = true) (hn : e.HasValue site user n) (σ : LogState) :
    evalSlot site level (GLOG_LOG_EVERY_N.code c.tokens e.tokens) .adjust ⟨σ, user⟩ =
      some (wrapInt ((σ.counters site).LOG_OCCURRENCES_MOD_N - n),
        ⟨σ.count site { σ.counters site with
          LOG_OCCURRENCES_MOD_N := wrapInt ((σ.counters site).LOG_OCCURRENCES_MOD_N - n) },
          user⟩) := by
  refine (evalCode_adjust he _).trans ?_
  simp only [CTree.eval, CTree.lvalue, Option.bind_some, Atom.store, Option.map_some, hn _,
    Atom.value, AssignOp.apply]

theorem evalCode_le (he : e.wf cpp = true) (hn : e.HasValue site user n)
    (hfits : BinaryOp.shl.level ≤ e.shape.level) (σ : LogState) :
    evalCode site ([.atom .LOG_OCCURRENCES, .binary .le] ++ e.tokens) ⟨σ, user⟩ =
      some (ofBool (decide ((σ.counters site).LOG_OCCURRENCES ≤ n)), ⟨σ, user⟩) := by
  refine (evalCode_comparison (o := .le) (l := .atom .LOG_OCCURRENCES) rfl rfl rfl he hfits
    _).trans ?_
  simp only [CTree.eval, Option.bind_some, Option.map_some, hn _, Atom.value, BinaryOp.apply]

/-- `if (…) if (g3::logLevel(level)) INTERNAL_LOG_MESSAGE(level).stream() << …` -/
theorem exec_gated {code : Slot → List CToken} {p : Prop} [Decidable p] {σ : LogState}
    (hdue : evalSlot site level code .due ⟨σ, user⟩ = some (ofBool (decide p), ⟨σ, user⟩))
    (capture : LogCapture) :
    let result := if p then σ.gate level capture else (σ, none)
    ∃ events, Statements.exec (evalSlot site level code)
        (.ifThen .due (.ifThen .logLevel (.expr .log))) ⟨σ, user⟩ =
          some (⟨result.1, user⟩, events) ∧
      (Statements.Event.eval Slot.log ∈ events ↔ result.2.isSome = true) := by
  simp only [Statements.exec, hdue, Option.bind_some]
  by_cases hp : p
  · simp only [hp, evalSlot, Option.bind_some, Option.map_some, World.logLevel, LogState.gate]
    cases (σ.g_log_levels.logLevel level).1 with
    | false => exact ⟨_, rfl, by simp⟩
    | true => exact ⟨_, rfl, by simp⟩
  · simp only [hp]
    exact ⟨_, rfl, by simp⟩

theorem logs_every_n (he : e.wf cpp = true) (hn : e.HasValue site user n)
    (hfits : BinaryOp.shl.level ≤ e.shape.level) (stackdump : String) (text : List Char)
    (σ : LogState) :
    GLOG_LOG_EVERY_N.logs level c e site ⟨σ, user⟩ =
      ((Statement.GLOG_LOG_EVERY_N level n text).execute site stackdump σ).map fun r =>
        (r.2.isSome, ⟨r.1, user⟩) := by
  have hparse : Statements.parse GLOG_LOG_EVERY_N.expansion =
      some (.block (.cons (.expr .count) (.cons (.ifThen .adjusts (.expr .adjust))
        (.cons (.ifThen .due (.ifThen .logLevel (.expr .log))) .nil)))) := rfl
  have hdue (σ : LogState) :
      evalSlot site level (GLOG_LOG_EVERY_N.code c.tokens e.tokens) .due ⟨σ, user⟩ =
        some (ofBool (decide ((σ.counters site).LOG_OCCURRENCES_MOD_N = 1)), ⟨σ, user⟩) :=
    evalCode_tokens (t := .binary .eq (.atom .LOG_OCCURRENCES_MOD_N) (.atom (.literal 1))) rfl
      _ _
  have hgated (σ : LogState) := exec_gated (hdue σ)
    ((INTERNAL_LOG_MESSAGE site stackdump level).stream text)
  rw [logs, hparse, Option.bind_some, Statements.exec, Statements.execBody, Statements.exec,
    evalSlot_count, Option.map_some, Option.bind_some, Statements.execBody, Statements.exec,
    evalSlot_adjusts he hn hfits, Option.bind_some, Statements.exec, evalSlot_adjust he hn]
  simp only [LogState.counters_count, LogState.count_count, Statement.execute]
  by_cases hgt : wrapInt ((σ.counters site).LOG_OCCURRENCES_MOD_N + 1) > n
  · obtain ⟨events, hexec, hmem⟩ := hgated (σ.count site
      ⟨wrapInt ((σ.counters site).LOG_OCCURRENCES + 1),
        wrapInt (wrapInt ((σ.counters site).LOG_OCCURRENCES_MOD_N + 1) - n)⟩)
    rw [LogState.counters_count] at hexec hmem
    simp [hgt, ofBool, Statements.execBody, hexec, hmem]
  · obtain ⟨events, hexec, hmem⟩ := hgated (σ.count site
      ⟨wrapInt ((σ.counters site).LOG_OCCURRENCES + 1),
        wrapInt ((σ.counters site).LOG_OCCURRENCES_MOD_N + 1)⟩)
    rw [LogState.counters_count] at hexec hmem
    simp [hgt, ofBool, Statements.execBody, hexec, hmem]

theorem logs_first_n (he : e.wf cpp = true) (hn : e.HasValue site user n)
    (hfits : BinaryOp.shl.level ≤ e.shape.level) (stackdump : String) (text : List Char)
    (σ : LogState) :
    LOG_FIRST_N.logs level c e site ⟨σ, user⟩ =
      ((Statement.LOG_FIRST_N level n text).execute site stackdump σ).map fun r =>
        (r.2.isSome, ⟨r.1, user⟩) := by
  have hparse : Statements.parse LOG_FIRST_N.expansion =
      some (.block (.cons (.ifThen .adjusts (.expr .count))
        (.cons (.ifThen .due (.ifThen .logLevel (.expr .log))) .nil))) := rfl
  have hadjusts (σ : LogState) :
      evalSlot site level (LOG_FIRST_N.code c.tokens e.tokens) .adjusts ⟨σ, user⟩ =
        some (ofBool (decide ((σ.counters site).LOG_OCCURRENCES ≤ n)), ⟨σ, user⟩) :=
    evalCode_le he hn hfits σ
  have hdue (σ : LogState) :
      evalSlot site level (LOG_FIRST_N.code c.tokens e.tokens) .due ⟨σ, user⟩ =
        some (ofBool (decide ((σ.counters site).LOG_OCCURRENCES ≤ n)), ⟨σ, user⟩) :=
    evalCode_le he hn hfits σ
  have hgated (σ : LogState) := exec_gated (hdue σ)
    ((INTERNAL_LOG_MESSAGE site stackdump level).stream text)
  rw [logs, hparse, Option.bind_some, Statements.exec, Statements.execBody, Statements.exec,
    hadjusts, Option.bind_some, Statements.exec, evalSlot_count]
  simp only [Statement.execute]
  by_cases hle : (σ.counters site).LOG_OCCURRENCES ≤ n
  · obtain ⟨events, hexec, hmem⟩ := hgated (σ.count site
      { σ.counters site with
        LOG_OCCURRENCES := wrapInt ((σ.counters site).LOG_OCCURRENCES + 1) })
    rw [LogState.counters_count] at hexec hmem
    simp [hle, ofBool, Statements.execBody, hexec, hmem]
  · obtain ⟨events, hexec, hmem⟩ := hgated σ
    have hself : σ.count site { σ.counters site with
        LOG_OCCURRENCES := (σ.counters site).LOG_OCCURRENCES } = σ := LogState.count_self site σ
    simp [hle, ofBool, Statements.execBody, hexec, hmem, hself]

theorem evalSlot_due (hc : c.wf cpp = true) (he : e.wf cpp = true)
    (ha : c.HasValue site user a) (hn : e.HasValue site user n)
    (hcfits : BinaryOp.logicalAnd.level ≤ c.shape.level)
    (hefits : BinaryOp.mod.level < e.shape.level) (σ : LogState) :
    evalSlot site level (GLOG_LOG_IF_EVERY_N.code c.tokens e.tokens) .due ⟨σ, user⟩ =
      let modN := (wrapInt ((σ.counters site).LOG_OCCURRENCES_MOD_N + 1)).tmod n
      if a = 0 then some (0, ⟨σ, user⟩)
      else if n = 0 then none
      else some (ofBool (decide (modN = Int.tmod 1 n)),
        ⟨σ.count site { σ.counters site with LOG_OCCURRENCES_MOD_N := modN }, user⟩) := by
  refine (evalCode_ifEveryN hc he hcfits hefits _).trans ?_
  simp only [ifEveryN, CTree.eval, ha _, hn _, Option.bind_some, Option.map_some, CTree.lvalue,
    Atom.store, Atom.value, BinaryOp.apply, AssignOp.apply]
  by_cases hzero : a = 0
  · simp [hzero]
  · by_cases hnone : n = 0
    · simp [hzero, hnone]
    · simp [hzero, hnone, hn _, ofBool]

theorem logs_if_every_n (hc : c.wf cpp = true) (he : e.wf cpp = true)
    (ha : c.HasValue site user a) (hn : e.HasValue site user n)
    (hcfits : BinaryOp.logicalAnd.level ≤ c.shape.level)
    (hefits : BinaryOp.mod.level < e.shape.level) (stackdump : String) (text : List Char)
    (σ : LogState) :
    GLOG_LOG_IF_EVERY_N.logs level c e site ⟨σ, user⟩ =
      ((Statement.GLOG_LOG_IF_EVERY_N level (decide (a ≠ 0)) n text).execute site stackdump
        σ).map fun r => (r.2.isSome, ⟨r.1, user⟩) := by
  have hparse : Statements.parse GLOG_LOG_IF_EVERY_N.expansion =
      some (.block (.cons (.expr .count) (.cons (.ifThen .due (.expr .log)) .nil))) := rfl
  rw [logs, hparse, Option.bind_some, Statements.exec, Statements.execBody, Statements.exec,
    evalSlot_count, Option.map_some, Option.bind_some, Statements.execBody, Statements.exec,
    evalSlot_due hc he ha hn hcfits hefits]
  simp only [Statement.execute, LogState.counters_count, LogState.count_count]
  by_cases hzero : a = 0
  · simp [hzero, Statements.execBody]
  · by_cases hnone : n = 0
    · simp [hzero, hnone]
    · by_cases hdue : (wrapInt ((σ.counters site).LOG_OCCURRENCES_MOD_N + 1)).tmod n =
          Int.tmod 1 n
      · simp [hzero, hnone, hdue, ofBool, Statements.exec, Statements.execBody, evalSlot]
      · simp [hzero, hnone, hdue, ofBool, Statements.exec, Statements.execBody, evalSlot]

/-- A macro that takes its arguments does what its statement does with their values. -/
theorem logs_execute (m : SamplingMacro) (hc : c.wf cpp = true) (he : e.wf cpp = true)
    (ha : c.HasValue site user a) (hn : e.HasValue site user n)
    (htakes : m.takes c.shape e.shape = true) (stackdump : String) (text : List Char)
    (σ : LogState) :
    m.logs level c e site ⟨σ, user⟩ =
      ((m.statement level (decide (a ≠ 0)) n text).execute site stackdump σ).map fun r =>
        (r.2.isSome, ⟨r.1, user⟩) := by
  cases m with
  | GLOG_LOG_EVERY_N => exact logs_every_n he hn (of_decide_eq_true htakes) stackdump text σ
  | GLOG_LOG_IF_EVERY_N =>
      simp only [takes, Bool.and_eq_true, decide_eq_true_eq] at htakes
      exact logs_if_every_n hc he ha hn htakes.1 htakes.2 stackdump text σ
  | LOG_FIRST_N => exact logs_first_n he hn (of_decide_eq_true htakes) stackdump text σ

/-- Arguments that do not use the counters may be evaluated before the statement. -/
theorem logs_execute_of_plain (m : SamplingMacro) (hc : c.wf cpp = true) (he : e.wf cpp = true)
    (hcplain : c.plain = true) (heplain : e.plain = true) (σ : LogState)
    (ha : (c.eval site ⟨σ, user⟩).map Prod.fst = some a)
    (hn : (e.eval site ⟨σ, user⟩).map Prod.fst = some n)
    (htakes : m.takes c.shape e.shape = true) (stackdump : String) (text : List Char) :
    m.logs level c e site ⟨σ, user⟩ =
      ((m.statement level (decide (a ≠ 0)) n text).execute site stackdump σ).map fun r =>
        (r.2.isSome, ⟨r.1, user⟩) :=
  m.logs_execute hc he (.of_plain hcplain ha) (.of_plain heplain hn) htakes stackdump text σ

end
end SamplingMacro

end G3log
