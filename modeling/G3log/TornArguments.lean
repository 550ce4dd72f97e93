import G3log.MacroArguments

/-!
# Arguments that the sampling macros tear apart

For each kind of argument that a macro does not take there is one that it tears apart, at
some count, and the statement then logs when it should not or the other way round.
`whole_arguments_iff` says which outermost operators each macro takes.

## Main definitions

* `Shape.condition`, `Shape.remainder`, `Shape.comparison` -- arguments of each kind.
* `SamplingMacro.torn` -- those that a macro tears apart.
-/

namespace G3log

open Precedence

/-! ## Arguments of each kind -/

namespace CTree

def int (n : Int) : CTree :=
  if n < 0 then .unary .neg (.atom (.literal (-n))) else .atom (.literal n)

def ints (o : BinaryOp) (a b : Int) : CTree := .binary o (int a) (int b)

end CTree

open CTree (int ints)

/-- A condition that holds: by its first operand if the `n` behind it is whole, and else by its
last, which leaves the decision to what is behind it. -/
def Shape.condition (n : Shape) : Shape → CTree
  | .primary => int 1
  | .cond =>
      if n = .primary then .cond (int 1) (int 1) (int 0)
      else .cond (int 0) (int 0) (int 1)
  | .binary .logicalOr => if n = .primary then ints .logicalOr 1 0 else ints .logicalOr 0 1
  | .binary .logicalAnd => ints .logicalAnd 1 1
  | .binary .bitOr => ints .bitOr 0 1
  | .binary .bitXor => ints .bitXor 0 1
  | .binary .bitAnd => ints .bitAnd 1 1
  | .binary .eq => ints .eq 1 1
  | .binary .ne => ints .ne 1 0
  | .binary .lt => ints .lt 0 1
  | .binary .gt => ints .gt 1 0
  | .binary .le => ints .le 0 1
  | .binary .ge => ints .ge 1 0
  | .binary .shl => ints .shl 1 0
  | .binary .shr => ints .shr 1 0
  | .binary .add => ints .add 0 1
  | .binary .sub => ints .sub 1 0
  | .binary .mul => ints .mul 1 1
  | .binary .div => ints .div 1 1
  | .binary .mod => ints .mod 1 2

/-- An `n` with the counter at which a remainder by it is torn apart. -/
def Shape.remainder : Shape → CTree × Int
  | .primary => (int 5, 2)
  | .cond => (.cond (int 1) (int 2) (int 3), 1)
  | .binary .logicalOr => (ints .logicalOr 2 0, 1)
  | .binary .logicalAnd => (ints .logicalAnd 2 1, 1)
  | .binary .bitOr => (ints .bitOr 4 1, 5)
  | .binary .bitXor => (ints .bitXor 6 3, 5)
  | .binary .bitAnd => (ints .bitAnd 7 6, 7)
  | .binary .eq => (.binary .eq (ints .lt (-7) 3) (int 1), 4)
  | .binary .ne => (ints .ne 5 3, 2)
  | .binary .lt => (ints .lt (-7) 3, 4)
  | .binary .gt => (ints .gt 7 3, 4)
  | .binary .le => (ints .le (-7) 3, 4)
  | .binary .ge => (ints .ge 7 3, 4)
  | .binary .shl => (ints .shl 1 2, 1)
  | .binary .shr => (ints .shr 12 2, 3)
  | .binary .add => (ints .add 2 3, 2)
  | .binary .sub => (ints .sub 5 2, 3)
  | .binary .mul => (ints .mul 2 3, 2)
  | .binary .div => (ints .div 6 2, 3)
  | .binary .mod => (ints .mod 7 4, 3)

/-- An `n` with the counter at which a comparison with it is torn apart, of the counter after
it is counted or before. -/
def Shape.comparison (counted : Bool) : Shape → CTree × Int
  | .cond => (.cond (int 1) (int 1) (int 1), if counted then 0 else 5)
  | .binary .logicalOr => (ints .logicalOr 0 1, if counted then 0 else 5)
  | .binary .logicalAnd =>
      if counted then (ints .logicalAnd (-1) 1, 0) else (ints .logicalAnd 5 1, 3)
  | .binary .bitOr => (ints .bitOr 0 1, if counted then 0 else 5)
  | .binary .bitXor => if counted then (ints .bitXor 3 2, 0) else (ints .bitXor 0 1, 5)
  | .binary .bitAnd => if counted then (ints .bitAnd 3 1, 1) else (ints .bitAnd 2 2, 0)
  | .binary .eq => (ints .eq 0 0, if counted then 1 else 5)
  | .binary .ne => if counted then (ints .ne 0 5, 0) else (ints .ne 0 1, 5)
  | .binary .lt => if counted then (ints .lt 5 9, 0) else (ints .lt 0 9, 5)
  | .binary .gt => if counted then (ints .gt 5 (-1), 0) else (ints .gt 0 (-1), 5)
  | .binary .le => if counted then (ints .le 5 9, 0) else (ints .le 0 9, 5)
  | .binary .ge => if counted then (ints .ge 5 (-1), 0) else (ints .ge 0 (-1), 5)
  | n => n.remainder

/-- An expression of the program with this outermost operator. -/
structure Shape.Is (n : Shape) (t : CTree) : Prop where
  wf : t.wf cpp = true
  plain : t.plain = true
  shape : t.shape = n

theorem Shape.is_condition (n condition : Shape) : condition.Is (n.condition condition) := by
  cases condition with
  | primary => exact ⟨rfl, rfl, rfl⟩
  | cond =>
      rw [Shape.condition]
      split <;> exact ⟨rfl, rfl, rfl⟩
  | binary o =>
      cases o with
      | logicalOr =>
          rw [Shape.condition]
          split <;> exact ⟨rfl, rfl, rfl⟩
      | _ => exact ⟨rfl, rfl, rfl⟩

theorem Shape.is_remainder (n : Shape) : n.Is n.remainder.1 := by
  cases n with
  | primary | cond => exact ⟨rfl, rfl, rfl⟩
  | binary o => cases o <;> exact ⟨rfl, rfl, rfl⟩

theorem Shape.is_comparison (counted : Bool) (n : Shape) : n.Is (n.comparison counted).1 := by
  cases n with
  | primary | cond => exact ⟨rfl, rfl, rfl⟩
  | binary o => cases counted <;> cases o <;> exact ⟨rfl, rfl, rfl⟩

namespace SamplingMacro

/-- The condition, the `n` and the counter of a statement whose arguments are torn apart. -/
def torn (condition n : Shape) : SamplingMacro → CTree × CTree × Int
  | .GLOG_LOG_EVERY_N => (n.condition condition, n.comparison true)
  | .GLOG_LOG_IF_EVERY_N => (n.condition condition, n.remainder)
  | .LOG_FIRST_N => (n.condition condition, n.comparison false)

def tornSite : Site := ⟨"main.cpp", 1, "main"⟩

/-- With its counters at `k`, the statement decides otherwise with its arguments in
parentheses. -/
def decidesOtherwise (m : SamplingMacro) (c e : CTree) (k : Int) : Prop :=
  let w : Variables := ⟨LogState.start.count tornSite ⟨k, k⟩, fun _ => 0⟩
  (m.logs G3LOG_INFO (.paren c) (.paren e) tornSite w).map Prod.fst ≠
    (m.logs G3LOG_INFO c e tornSite w).map Prod.fst

instance (m : SamplingMacro) (c e : CTree) (k : Int) : Decidable (m.decidesOtherwise c e k) :=
  inferInstanceAs (Decidable (_ ≠ _))

/-! ## Conditions that hold -/

section
variable {site : Site} {level : LEVELS}

theorem eval_ints {o : BinaryOp} (ho : BinaryOp.logicalAnd.level < o.level) {a b : Int}
    {w : Variables} (ha : CTree.eval site (int a) w = some (a, w))
    (hb : CTree.eval site (int b) w = some (b, w)) (hone : o.apply a b = some 1) :
    CTree.eval site (ints o a b) w = some (1, w) := by
  have ha' : CTree.eval site (int a) w = (some a).map fun v => (v, w) := ha
  have hb' : CTree.eval site (int b) w = (some b).map fun v => (v, w) := hb
  rw [ints, CTree.eval_binary ho ha' hb', Option.bind_some, Option.bind_some, hone]
  rfl

theorem eval_condition (n s : Shape) (w : Variables) :
    CTree.eval site (n.condition s) w = some (1, w) := by
  cases s with
  | primary => rfl
  | cond =>
      rw [Shape.condition]
      split <;> rfl
  | binary o =>
      cases o with
      | logicalOr =>
          rw [Shape.condition]
          split <;> rfl
      | logicalAnd => rfl
      | _ => exact eval_ints (by decide) rfl rfl (by decide +kernel)

/-- What is behind a condition that holds decides. -/
theorem evalCode_and {c t : CTree} (hc : c.wf cpp = true) (ht : t.wf cpp = true)
    (hfits : BinaryOp.logicalAnd.level ≤ c.shape.level) {w : Variables}
    (hholds : CTree.eval site c w = some (1, w)) :
    evalCode site (c.tokens ++ .binary .logicalAnd :: Tree.tokens (.paren t)) w =
      CTree.eval site (.binary .logicalAnd (int 1) t) w := by
  have hcfits : c.fits cpp 3 = true := (c.fits_iff (by omega)).mpr hfits
  have hwf : (Tree.binary .logicalAnd c (.paren t) : CTree).wf cpp = true := by
    have hlevel : cpp.level .logicalAnd = 3 := rfl
    simp only [Tree.wf, hlevel, hcfits, hc, ht]
    rfl
  have hone : CTree.eval site (int 1) w = some (1, w) := rfl
  refine (evalCode_tokens hwf site w).trans ?_
  simp only [CTree.eval, hholds, hone]

theorem evalCode_condition {n : Shape} (hn : n ≠ .primary) (s : Shape) {t : CTree}
    (ht : t.wf cpp = true) (w : Variables) :
    evalCode site ((n.condition s).tokens ++ .binary .logicalAnd :: Tree.tokens (.paren t)) w =
      CTree.eval site (.binary .logicalAnd (int 1) t) w := by
  have his := n.is_condition s
  by_cases hlevel : BinaryOp.logicalAnd.level ≤ s.level
  · exact evalCode_and his.wf ht (by rw [his.shape]; exact hlevel) (eval_condition n s w)
  · have hloose : s = .cond ∨ s = .binary .logicalOr := by
      revert hlevel
      cases s with
      | primary | cond => decide
      | binary o => cases o <;> decide
    rcases hloose with rfl | rfl
    · rw [Shape.condition, if_neg hn]
      exact evalCode_tokens
        (t := .cond (int 0) (int 0) (.binary .logicalAnd (int 1) (.paren t))) ht site w
    · rw [Shape.condition, if_neg hn]
      refine (evalCode_tokens (t := .binary .logicalOr (int 0)
        (.binary .logicalAnd (int 1) (.paren t))) ht site w).trans ?_
      have hzero : CTree.eval site (int 0) w = some (0, w) := rfl
      have hone : CTree.eval site (int 1) w = some (1, w) := rfl
      simp only [CTree.eval, hzero, hone, Option.bind_some]
      cases CTree.eval site t w with
      | none => rfl
      | some r => simp [ofBool]

/-- The part of `GLOG_LOG_IF_EVERY_N` behind its condition, as the parser groups it. -/
def regrouped (e : CTree) : CTree :=
  ((parse cpp ((GLOG_LOG_IF_EVERY_N.code [] e.tokens .due).drop 2).dropLast).getD (int 0))

theorem due_remainder (n : Shape) :
    (regrouped n.remainder.1).wf cpp = true ∧ ∀ c : List CToken,
      GLOG_LOG_IF_EVERY_N.code c n.remainder.1.tokens .due =
        c ++ .binary .logicalAnd :: Tree.tokens (.paren (regrouped n.remainder.1)) := by
  have h : (regrouped n.remainder.1).wf cpp = true ∧
      GLOG_LOG_IF_EVERY_N.code [] n.remainder.1.tokens .due =
        .binary .logicalAnd :: Tree.tokens (.paren (regrouped n.remainder.1)) := by
    cases n with
    | primary | cond => decide +kernel
    | binary o => cases o <;> decide +kernel
  refine ⟨h.1, fun c => ?_⟩
  rw [← h.2]
  simp [code]

theorem logs_condition {c c' e : CTree}
    (h : ∀ w, evalCode site (GLOG_LOG_IF_EVERY_N.code c.tokens e.tokens .due) w =
      evalCode site (GLOG_LOG_IF_EVERY_N.code c'.tokens e.tokens .due) w) (w : Variables) :
    GLOG_LOG_IF_EVERY_N.logs level c e site w = GLOG_LOG_IF_EVERY_N.logs level c' e site w := by
  apply logs_congr
  intro s w
  cases s with
  | due => exact h w
  | count | adjusts | adjust | logLevel | log => rfl

/-- One condition that holds stands for all. -/
theorem decidesOtherwise_condition {n : Shape} (hn : n ≠ .primary) (s : Shape) (k : Int) :
    GLOG_LOG_IF_EVERY_N.decidesOtherwise (n.condition s) n.remainder.1 k ↔
      GLOG_LOG_IF_EVERY_N.decidesOtherwise (int 1) n.remainder.1 k := by
  have hwhole (w : Variables) : GLOG_LOG_IF_EVERY_N.logs G3LOG_INFO (n.condition s)
      n.remainder.1 tornSite w =
        GLOG_LOG_IF_EVERY_N.logs G3LOG_INFO (int 1) n.remainder.1 tornSite w := by
    apply logs_condition
    intro w
    obtain ⟨hwf, hcode⟩ := due_remainder n
    rw [hcode, hcode, evalCode_condition hn s hwf]
    exact (evalCode_condition hn .primary hwf w).symm
  have hparen (w : Variables) : GLOG_LOG_IF_EVERY_N.logs G3LOG_INFO (.paren (n.condition s))
      (.paren n.remainder.1) tornSite w =
        GLOG_LOG_IF_EVERY_N.logs G3LOG_INFO (.paren (int 1)) (.paren n.remainder.1) tornSite
          w := by
    apply logs_condition
    intro w
    have hwf := n.is_remainder.wf
    have hone : CTree.eval tornSite (int 1) w = some (1, w) := rfl
    rw [evalCode_ifEveryN_paren (n.is_condition s).wf hwf, evalCode_ifEveryN_paren rfl hwf]
    simp only [ifEveryN, CTree.eval, eval_condition n s w, hone]
  simp only [decidesOtherwise, hwhole, hparen]

end

/-! ## Arguments that are torn apart -/

theorem otherwise_remainder {condition n : Shape}
    (h : GLOG_LOG_IF_EVERY_N.takes condition n = false) :
    GLOG_LOG_IF_EVERY_N.decidesOtherwise (n.condition condition) n.remainder.1
      n.remainder.2 := by
  by_cases hn : n = .primary
  · subst hn
    revert h
    cases condition with
    | primary | cond => decide +kernel
    | binary o => cases o <;> decide +kernel
  · rw [decidesOtherwise_condition hn]
    revert hn
    cases n with
    | primary | cond => decide +kernel
    | binary o => cases o <;> decide +kernel

theorem otherwise_comparison {n : Shape} (h : n.level < BinaryOp.shl.level) :
    GLOG_LOG_EVERY_N.decidesOtherwise (int 0) (n.comparison true).1 (n.comparison true).2 ∧
      LOG_FIRST_N.decidesOtherwise (int 0) (n.comparison false).1 (n.comparison false).2 := by
  revert h
  cases n with
  | primary | cond => decide +kernel
  | binary o => cases o <;> decide +kernel

/-- The other macros have no condition. -/
theorem code_condition {m : SamplingMacro} (hm : m ≠ .GLOG_LOG_IF_EVERY_N)
    (c c' e : List CToken) : m.code c e = m.code c' e := by
  funext s
  cases m with
  | GLOG_LOG_IF_EVERY_N => exact absurd rfl hm
  | GLOG_LOG_EVERY_N | LOG_FIRST_N => cases s <;> rfl

theorem decidesOtherwise_unconditional {m : SamplingMacro} (hm : m ≠ .GLOG_LOG_IF_EVERY_N)
    (c c' e : CTree) (k : Int) : m.decidesOtherwise c e k ↔ m.decidesOtherwise c' e k := by
  simp only [decidesOtherwise, logs, code_condition hm _ []]

/-- Of every kind that a macro does not take there are arguments that it tears apart. -/
theorem otherwise_torn {m : SamplingMacro} {condition n : Shape}
    (h : m.takes condition n = false) :
    m.decidesOtherwise (m.torn condition n).1 (m.torn condition n).2.1
      (m.torn condition n).2.2 := by
  cases m with
  | GLOG_LOG_IF_EVERY_N => exact otherwise_remainder h
  | GLOG_LOG_EVERY_N =>
      have hlevel := Nat.lt_of_not_le (of_decide_eq_false h)
      rw [decidesOtherwise_unconditional (by decide) _ (int 0)]
      exact (otherwise_comparison hlevel).1
  | LOG_FIRST_N =>
      have hlevel := Nat.lt_of_not_le (of_decide_eq_false h)
      rw [decidesOtherwise_unconditional (by decide) _ (int 0)]
      exact (otherwise_comparison hlevel).2

end SamplingMacro

theorem SamplingMacro.is_torn (m : SamplingMacro) (condition n : Shape) :
    condition.Is (m.torn condition n).1 ∧ n.Is (m.torn condition n).2.1 := by
  cases m with
  | GLOG_LOG_EVERY_N => exact ⟨n.is_condition condition, n.is_comparison true⟩
  | GLOG_LOG_IF_EVERY_N => exact ⟨n.is_condition condition, n.is_remainder⟩
  | LOG_FIRST_N => exact ⟨n.is_condition condition, n.is_comparison false⟩

/-- The macros take their arguments as whole expressions if these bind tightly enough, and of
no other kind. -/
theorem whole_arguments_iff (m : SamplingMacro) (condition n : Shape) :
    (∀ (level : LEVELS) (c e : CTree), condition.Is c → n.Is e → ∀ (site : Site) (w : Variables),
      (m.logs level c e site w).map Prod.fst =
        (m.logs level (.paren c) (.paren e) site w).map Prod.fst) ↔
      m.takes condition n = true := by
  constructor
  · intro h
    by_contra htakes
    have hargs := m.is_torn condition n
    apply m.otherwise_torn (Bool.eq_false_iff.mpr htakes)
    exact (h _ _ _ hargs.1 hargs.2 _ _).symm
  · intro htakes level c e hc he site w
    rw [← hc.shape, ← he.shape] at htakes
    rw [SamplingMacro.logs_paren hc.wf he.wf htakes]

/-- `GLOG_LOG_IF_EVERY_N(INFO, ready || forced, 5)` logs every time if it is ready. -/
theorem ready_or_forced_torn :
    ¬ ∀ (m : SamplingMacro) (level : LEVELS) (c e : CTree), c.wf cpp = true → e.wf cpp = true →
      c.plain = true → e.plain = true → ∀ (site : Site) (w : Variables),
        (m.logs level c e site w).map Prod.fst =
          (m.logs level (.paren c) (.paren e) site w).map Prod.fst := by
  intro h
  let w : Variables :=
    ⟨LogState.start.count SamplingMacro.tornSite ⟨2, 2⟩, fun name => ofBool (name == "ready")⟩
  have heq := h .GLOG_LOG_IF_EVERY_N G3LOG_INFO
    (.binary .logicalOr (.atom (.var "ready")) (.atom (.var "forced"))) (int 5) rfl rfl rfl rfl
    SamplingMacro.tornSite w
  revert heq
  decide +kernel

end G3log
