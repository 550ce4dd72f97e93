import G3log.ElseCapture
import G3log.Lib.Precedence

/-!
# Expressions of type `int`

The expressions that programs and macros write, with the precedence of C++, and their values
over the counters of a statement and the variables of the program.

## Main definitions

* `BinaryOp`, `cpp`, `CTree` -- operators, their precedence and expressions.
* `CTree.eval`, `evalCode` -- the value of an expression and of its tokens.
* `CTree.plain` -- what a program writes for an argument.
* `CTree.shape` -- the outermost operator.
-/

namespace G3log

open Precedence

/-! ## Operators and trees -/

inductive BinaryOp
  | logicalOr
  | logicalAnd
  | bitOr
  | bitXor
  | bitAnd
  | eq
  | ne
  | lt
  | gt
  | le
  | ge
  | shl
  | shr
  | add
  | sub
  | mul
  | div
  | mod
  deriving DecidableEq

def BinaryOp.level : BinaryOp → ℕ
  | .logicalOr => 2
  | .logicalAnd => 3
  | .bitOr => 4
  | .bitXor => 5
  | .bitAnd => 6
  | .eq | .ne => 7
  | .lt | .gt | .le | .ge => 8
  | .shl | .shr => 9
  | .add | .sub => 10
  | .mul | .div | .mod => 11

/-- The precedence of the operators of C++. -/
def cpp : Levels BinaryOp where
  level := BinaryOp.level
  top := 12
  two_le := by intro o; cases o <;> decide
  lt_top := by intro o; cases o <;> decide
  one_lt_top := by decide

inductive UnaryOp
  | not
  | compl
  | neg
  | plus
  | preIncrement
  deriving DecidableEq

inductive AssignOp
  | set
  | subtract
  deriving DecidableEq

/-- The counters of the macro, and what the program has. -/
inductive Atom
  | LOG_OCCURRENCES
  | LOG_OCCURRENCES_MOD_N
  | var (name : String)
  | literal (n : Int)
  deriving DecidableEq

abbrev CToken := Precedence.Token Atom BinaryOp UnaryOp AssignOp

abbrev CTree := Precedence.Tree Atom BinaryOp UnaryOp AssignOp

/-- The counters, and the variables of the program. -/
abbrev Variables := World (String → Int)

def Atom.value (site : Site) (w : Variables) : Atom → Int
  | .LOG_OCCURRENCES => (w.log.counters site).LOG_OCCURRENCES
  | .LOG_OCCURRENCES_MOD_N => (w.log.counters site).LOG_OCCURRENCES_MOD_N
  | .var name => w.user name
  | .literal n => n

def Atom.store (site : Site) (v : Int) (w : Variables) : Atom → Option Variables
  | .LOG_OCCURRENCES =>
      some { w with
        log := w.log.count site { w.log.counters site with LOG_OCCURRENCES := v } }
  | .LOG_OCCURRENCES_MOD_N =>
      some { w with
        log := w.log.count site { w.log.counters site with LOG_OCCURRENCES_MOD_N := v } }
  | .var name => some { w with user := Function.update w.user name v }
  | .literal _ => none

def bits (a : Int) : BitVec 32 := BitVec.ofInt 32 a

/-- A division by zero and a shift by too much have no result. -/
def BinaryOp.apply (a b : Int) : BinaryOp → Option Int
  | .logicalOr => some (ofBool (decide (a ≠ 0 ∨ b ≠ 0)))
  | .logicalAnd => some (ofBool (decide (a ≠ 0 ∧ b ≠ 0)))
  | .bitOr => some (bits a ||| bits b).toInt
  | .bitXor => some (bits a ^^^ bits b).toInt
  | .bitAnd => some (bits a &&& bits b).toInt
  | .eq => some (ofBool (decide (a = b)))
  | .ne => some (ofBool (decide (a ≠ b)))
  | .lt => some (ofBool (decide (a < b)))
  | .gt => some (ofBool (decide (a > b)))
  | .le => some (ofBool (decide (a ≤ b)))
  | .ge => some (ofBool (decide (a ≥ b)))
  | .shl => if 0 ≤ b ∧ b < 32 then some (wrapInt (a * 2 ^ b.toNat)) else none
  | .shr => if 0 ≤ b ∧ b < 32 then some (a / 2 ^ b.toNat) else none
  | .add => some (wrapInt (a + b))
  | .sub => some (wrapInt (a - b))
  | .mul => some (wrapInt (a * b))
  | .div => if b = 0 then none else some (wrapInt (a.tdiv b))
  | .mod => if b = 0 then none else some (a.tmod b)

def UnaryOp.apply (a : Int) : UnaryOp → Int
  | .not => ofBool (decide (a = 0))
  | .compl => (~~~ bits a).toInt
  | .neg => wrapInt (-a)
  | .plus => a
  | .preIncrement => wrapInt (a + 1)

def AssignOp.apply (a b : Int) : AssignOp → Int
  | .set => b
  | .subtract => wrapInt (a - b)

namespace CTree

/-- What can be assigned to. -/
def lvalue : CTree → Option Atom
  | .atom a => some a
  | .paren t => lvalue t
  | _ => none

/-- The value of an expression and what it does to the variables. -/
def eval (site : Site) : CTree → Variables → Option (Int × Variables)
  | .atom a, w => some (a.value site w, w)
  | .paren t, w => eval site t w
  | .unary .preIncrement t, w =>
      (lvalue t).bind fun a =>
        let v := UnaryOp.preIncrement.apply (a.value site w)
        (a.store site v w).map fun w' => (v, w')
  | .unary m t, w => (eval site t w).map fun r => (m.apply r.1, r.2)
  | .binary .logicalOr l r, w =>
      (eval site l w).bind fun p =>
        if p.1 ≠ 0 then some (1, p.2)
        else (eval site r p.2).map fun q => (ofBool (decide (q.1 ≠ 0)), q.2)
  | .binary .logicalAnd l r, w =>
      (eval site l w).bind fun p =>
        if p.1 = 0 then some (0, p.2)
        else (eval site r p.2).map fun q => (ofBool (decide (q.1 ≠ 0)), q.2)
  | .binary o l r, w =>
      (eval site l w).bind fun p => (eval site r p.2).bind fun q =>
        (o.apply p.1 q.1).map fun v => (v, q.2)
  | .cond c t e, w =>
      (eval site c w).bind fun p => if p.1 = 0 then eval site e p.2 else eval site t p.2
  | .assign g l r, w =>
      (eval site r w).bind fun q => (lvalue l).bind fun a =>
        let v := g.apply (a.value site q.2) q.1
        (a.store site v q.2).map fun w' => (v, w')

/-- An expression of the program: it names no counter and changes nothing. -/
def plain : CTree → Bool
  | .atom (.var _) => true
  | .atom (.literal _) => true
  | .atom _ => false
  | .paren t => plain t
  | .unary .preIncrement _ => false
  | .unary _ t => plain t
  | .binary _ l r => plain l && plain r
  | .cond c t e => plain c && plain t && plain e
  | .assign _ _ _ => false

end CTree

/-- The value of the tokens of an expression. -/
def evalCode (site : Site) (ts : List CToken) (w : Variables) : Option (Int × Variables) :=
  (parse cpp ts).bind fun t => CTree.eval site t w

theorem evalCode_tokens {t : CTree} (h : t.wf cpp = true) (site : Site) (w : Variables) :
    evalCode site t.tokens w = CTree.eval site t w := by
  rw [evalCode, parse_tokens h, Option.bind_some]

/-! ## Expressions of a program -/

namespace CTree

theorem eval_unary {m : UnaryOp} (hm : m ≠ .preIncrement) (site : Site) (t : CTree)
    (w : Variables) :
    eval site (.unary m t) w = (eval site t w).map fun r => (m.apply r.1, r.2) := by
  cases m with
  | preIncrement => exact absurd rfl hm
  | not | compl | neg | plus => rfl

/-- The operators that evaluate both operands. -/
theorem eval_binary {o : BinaryOp} (ho : BinaryOp.logicalAnd.level < o.level) {site : Site}
    {l r : CTree} {w : Variables} {vl vr : Option Int}
    (hl : eval site l w = vl.map fun a => (a, w)) (hr : eval site r w = vr.map fun a => (a, w)) :
    eval site (.binary o l r) w =
      (vl.bind fun p => vr.bind fun q => o.apply p q).map fun a => (a, w) := by
  have hstrict : eval site (.binary o l r) w =
      (eval site l w).bind fun p => (eval site r p.2).bind fun q =>
        (o.apply p.1 q.1).map fun v => (v, q.2) := by
    cases o with
    | logicalOr | logicalAnd => exact absurd ho (by decide)
    | _ => rfl
  rw [hstrict, hl]
  cases vl with
  | none => rfl
  | some p =>
      simp only [Option.map_some, Option.bind_some, hr]
      cases vr with
      | none => rfl
      | some q => rfl

/-- An expression of the program has its value whatever the counters are. -/
theorem eval_plain {t : CTree} (h : t.plain = true) (site : Site) (user : String → Int) :
    ∃ v : Option Int, ∀ σ, eval site t ⟨σ, user⟩ = v.map fun a => (a, ⟨σ, user⟩) := by
  induction t with
  | atom a =>
      cases a with
      | var name => exact ⟨some (user name), fun _ => rfl⟩
      | literal n => exact ⟨some n, fun _ => rfl⟩
      | LOG_OCCURRENCES | LOG_OCCURRENCES_MOD_N => cases h
  | paren t ih => exact ih h
  | unary m t ih =>
      have hm : m ≠ .preIncrement := by
        rintro rfl
        cases h
      obtain ⟨v, hv⟩ := ih (by cases m <;> first | exact h | exact absurd rfl hm)
      refine ⟨v.map fun a => m.apply a, fun σ => ?_⟩
      rw [eval_unary hm, hv σ, Option.map_map, Option.map_map]
      rfl
  | binary o l r ihl ihr =>
      simp only [plain, Bool.and_eq_true] at h
      obtain ⟨vl, hl⟩ := ihl h.1
      obtain ⟨vr, hr⟩ := ihr h.2
      cases o with
      | logicalOr =>
          refine ⟨vl.bind fun p => if p ≠ 0 then some 1 else
            vr.map fun q => ofBool (decide (q ≠ 0)), fun σ => ?_⟩
          rw [eval, hl σ]
          cases vl with
          | none => rfl
          | some p =>
              simp only [Option.map_some, Option.bind_some, hr σ]
              split
              · rfl
              · rw [Option.map_map, Option.map_map]
                rfl
      | logicalAnd =>
          refine ⟨vl.bind fun p => if p = 0 then some 0 else
            vr.map fun q => ofBool (decide (q ≠ 0)), fun σ => ?_⟩
          rw [eval, hl σ]
          cases vl with
          | none => rfl
          | some p =>
              simp only [Option.map_some, Option.bind_some, hr σ]
              split
              · rfl
              · rw [Option.map_map, Option.map_map]
                rfl
      | _ => exact ⟨_, fun σ => eval_binary (by decide) (hl σ) (hr σ)⟩
  | cond c t e ihc iht ihe =>
      simp only [plain, Bool.and_eq_true] at h
      obtain ⟨vc, hc⟩ := ihc h.1.1
      obtain ⟨vt, ht⟩ := iht h.1.2
      obtain ⟨ve, he⟩ := ihe h.2
      refine ⟨vc.bind fun p => if p = 0 then ve else vt, fun σ => ?_⟩
      rw [eval, hc σ]
      cases vc with
      | none => rfl
      | some p =>
          simp only [Option.map_some, Option.bind_some]
          split
          · rw [he σ]
          · rw [ht σ]
  | assign g l r => cases h

/-- The value of an expression, whatever the counters are. -/
def HasValue (site : Site) (user : String → Int) (t : CTree) (n : Int) : Prop :=
  ∀ σ, eval site t ⟨σ, user⟩ = some (n, ⟨σ, user⟩)

/-- An expression of the program that has a value once has it always. -/
theorem HasValue.of_plain {t : CTree} (h : t.plain = true) {site : Site} {user : String → Int}
    {σ : LogState} {n : Int} (hn : (eval site t ⟨σ, user⟩).map Prod.fst = some n) :
    HasValue site user t n := by
  obtain ⟨v, hv⟩ := eval_plain h site user
  rw [hv σ, Option.map_map, Option.map_eq_some_iff] at hn
  obtain ⟨a, rfl, rfl⟩ := hn
  exact hv

end CTree

/-! ## The outermost operator -/

/-- The outermost operator of an expression. -/
inductive Shape
  /-- No operator, a unary one, or parentheses. -/
  | primary
  | binary (o : BinaryOp)
  | cond
  deriving DecidableEq

def CTree.shape : CTree → Shape
  | .binary o _ _ => .binary o
  | .cond _ _ _ => .cond
  | .assign _ _ _ => .cond
  | _ => .primary

def Shape.level : Shape → ℕ
  | .primary => 12
  | .binary o => o.level
  | .cond => 1

theorem CTree.fits_iff (t : CTree) {p : ℕ} (hp : p ≤ 12) :
    t.fits cpp p = true ↔ p ≤ t.shape.level := by
  cases t with
  | atom | paren | unary => simp [Tree.fits, CTree.shape, Shape.level, hp]
  | binary | cond | assign => exact decide_eq_true_iff

end G3log
