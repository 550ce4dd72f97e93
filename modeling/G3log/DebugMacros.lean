import G3log.ElseCapture

/-!
# The macros for debug builds

`DLOG`, `DCHECK` and the like are `GLOG_LOG`, `CHECK` and the like in a build with checks. In a
release build the same macros stand behind an `if constexpr (false)`. As long as a program has
no `else` directly behind one of them, a release build does what the program does without them,
and none of their arguments is evaluated (`release_without`). An `else` behind one of them is
never the `else` of the program (`release_takes_else`).

## Main definitions

* `DebugMacro`, `DebugMacro.expansion` -- the macros, in both kinds of build.
* `Source` -- programs that use them, and their tokens in a build.
* `observe` -- what a program does, but for literals.
-/

namespace G3log

open Statements

universe u v

variable {α : Type u} {υ : Type v}

/-! ## The macros -/

/-- What is defined for a build. -/
structure Build where
  NDEBUG : Bool
  DCHECK_ALWAYS_ON : Bool

def Build.DCHECK_IS_ON (build : Build) : Bool :=
  !(build.NDEBUG && !build.DCHECK_ALWAYS_ON)

/-- A macro with its arguments and what the program streams into it. -/
inductive DebugMacro (α : Type u)
  | DLOG (level : LEVELS) (message : α)
  | DVLOG (verboselevel : α) (message : α)
  | DLOG_IF (level : LEVELS) (condition : α) (message : α)
  | DCHECK (condition : α) (message : α)
  | DCHECK_EQ (val1 val2 : α) (message : α)

namespace DebugMacro

/-- What the macro is in a build with checks. -/
def checked : DebugMacro α → LogMacro α
  | .DLOG level message => .GLOG_LOG level message
  | .DVLOG verboselevel message => .GLOG_VLOG verboselevel message
  | .DLOG_IF level condition message => .GLOG_LOG_IF level condition message
  | .DCHECK condition message => .CHECK condition message
  | .DCHECK_EQ val1 val2 message => .CHECK_EQ val1 val2 message

/-- The tokens of the statement. In a release build it stands behind `if constexpr (false)`,
which is an `if` here. The literal is one of the expressions that programs write. -/
def expansion (build : Build) (false_ : α) (m : DebugMacro α) : List (Token (Expr α)) :=
  if build.DCHECK_IS_ON then m.checked.expansion
  else .if_ :: .lparen :: .expr (.user false_) :: .rparen :: m.checked.expansion

/-- The statement of the macro, on its own. -/
def statement (build : Build) (false_ : α) (m : DebugMacro α) : Stmt (Expr α) :=
  if build.DCHECK_IS_ON then m.checked.statement else .ifThen (.user false_) m.checked.statement

theorem tokens_statement (build : Build) (false_ : α) (m : DebugMacro α) :
    (m.statement build false_).tokens = m.expansion build false_ := by
  rw [statement, expansion]
  split
  · exact m.checked.tokens_statement
  · rw [Stmt.tokens, m.checked.tokens_statement]

theorem wf_statement (build : Build) (false_ : α) (m : DebugMacro α) :
    (m.statement build false_).wf = true := by
  rw [statement]
  split
  · exact m.checked.wf_statement
  · exact m.checked.wf_statement

theorem statement_of_release {build : Build} (h : build.DCHECK_IS_ON = false) (false_ : α)
    (m : DebugMacro α) :
    m.statement build false_ = .ifThen (.user false_) m.checked.statement := by
  rw [statement, if_neg (Bool.eq_false_iff.mp h)]

end DebugMacro

/-! ## Programs -/

mutual
/-- The statements of a program, before the macros are expanded. There are no loops around the
macros: of the statements that hold others, only blocks and `if`s. -/
inductive Source (α : Type u)
  | debug (m : DebugMacro α)
  | empty
  | expr (e : Expr α)
  | other (e : Expr α)
  | block (body : SourceBody α)
  | ifThen (c : Expr α) (t : Source α)
  | ifElse (c : Expr α) (t e : Source α)

inductive SourceBody (α : Type u)
  | nil
  | cons (s : Source α) (rest : SourceBody α)
end

mutual
/-- What the compiler is given. -/
def Source.tokens (build : Build) (false_ : α) : Source α → List (Token (Expr α))
  | .debug m => m.expansion build false_
  | .empty => [.semicolon]
  | .expr e => [.expr e, .semicolon]
  | .other e => [.other e]
  | .block body => .lbrace :: body.tokens build false_
  | .ifThen c t => .if_ :: .lparen :: .expr c :: .rparen :: t.tokens build false_
  | .ifElse c t e =>
      .if_ :: .lparen :: .expr c :: .rparen ::
        (t.tokens build false_ ++ .else_ :: e.tokens build false_)

def SourceBody.tokens (build : Build) (false_ : α) : SourceBody α → List (Token (Expr α))
  | .nil => [.rbrace]
  | .cons s rest => s.tokens build false_ ++ rest.tokens build false_
end

mutual
/-- The program with a statement for each macro. -/
def Source.fill (f : DebugMacro α → Stmt (Expr α)) : Source α → Stmt (Expr α)
  | .debug m => f m
  | .empty => .empty
  | .expr e => .expr e
  | .other e => .other e
  | .block body => .block (body.fill f)
  | .ifThen c t => .ifThen c (t.fill f)
  | .ifElse c t e => .ifElse c (t.fill f) (e.fill f)

def SourceBody.fill (f : DebugMacro α → Stmt (Expr α)) : SourceBody α → Body (Expr α)
  | .nil => .nil
  | .cons s rest => .cons (s.fill f) (rest.fill f)
end

/-- The program without its debug macros. -/
def Source.without (s : Source α) : Stmt (Expr α) := s.fill fun _ => .empty

/-- The statement ends in a debug macro, or in an `if` without an `else`. -/
def Source.takesElse : Source α → Bool
  | .debug _ => true
  | .ifThen _ _ => true
  | .ifElse _ _ e => e.takesElse
  | _ => false

mutual
/-- No `else` stands behind a debug macro, or behind an open statement. -/
def Source.apart : Source α → Bool
  | .block body => body.apart
  | .ifThen _ t => t.apart
  | .ifElse _ t e => !t.takesElse && t.apart && e.apart
  | _ => true

def SourceBody.apart : SourceBody α → Bool
  | .nil => true
  | .cons s rest => s.apart && rest.apart
end

section
variable {f g : DebugMacro α → Stmt (Expr α)}

mutual
theorem Source.tokens_fill (build : Build) (false_ : α) (s : Source α) :
    (s.fill (DebugMacro.statement build false_)).tokens = s.tokens build false_ := by
  cases s with
  | debug m => exact m.tokens_statement build false_
  | empty | expr | other => rfl
  | block body => rw [Source.fill, Stmt.tokens, body.tokens_fill, Source.tokens]
  | ifThen c t => rw [Source.fill, Stmt.tokens, t.tokens_fill, Source.tokens]
  | ifElse c t e =>
      rw [Source.fill, Stmt.tokens, t.tokens_fill, e.tokens_fill, Source.tokens]

theorem SourceBody.tokens_fill (build : Build) (false_ : α) (b : SourceBody α) :
    (b.fill (DebugMacro.statement build false_)).tokens = b.tokens build false_ := by
  cases b with
  | nil => rfl
  | cons s rest =>
      rw [SourceBody.fill, Body.tokens, s.tokens_fill, rest.tokens_fill, SourceBody.tokens]
end

theorem Source.isOpen_fill (s : Source α) (h : s.takesElse = false) :
    (s.fill f).isOpen = false := by
  cases s with
  | debug | ifThen => cases h
  | empty | expr | other | block => rfl
  | ifElse c t e => exact e.isOpen_fill h

mutual
theorem Source.wf_fill (hf : ∀ m, (f m).wf = true) (s : Source α) (h : s.apart = true) :
    (s.fill f).wf = true := by
  cases s with
  | debug m => exact hf m
  | empty | expr | other => rfl
  | block body => exact body.wf_fill hf h
  | ifThen c t => exact t.wf_fill hf h
  | ifElse c t e =>
      simp only [Source.apart, Bool.and_eq_true, Bool.not_eq_true'] at h
      simp only [Source.fill, Stmt.wf, t.isOpen_fill h.1.1, t.wf_fill hf h.1.2, e.wf_fill hf h.2]
      rfl

theorem SourceBody.wf_fill (hf : ∀ m, (f m).wf = true) (b : SourceBody α)
    (h : b.apart = true) : (b.fill f).wf = true := by
  cases b with
  | nil => rfl
  | cons s rest =>
      simp only [SourceBody.apart, Bool.and_eq_true] at h
      simp only [SourceBody.fill, Body.wf, s.wf_fill hf h.1, rest.wf_fill hf h.2]
      rfl
end

end

/-- What a build finds in a program. -/
theorem Source.parse_tokens (build : Build) (false_ : α) (s : Source α)
    (h : s.apart = true) : parse (s.tokens build false_) =
      some (s.fill (DebugMacro.statement build false_)) := by
  rw [← s.tokens_fill]
  exact Statements.parse_tokens _
    (s.wf_fill (fun m => m.wf_statement build false_) h)

/-! ## What a program does -/

section
variable [DecidableEq α] {env : Surroundings α υ} {false_ : α}

/-- An evaluation of the literal is not to be seen, and neither is an empty statement. -/
def shown (false_ : α) : Event (Expr α) → Bool
  | .empty => false
  | .block => true
  | .eval e => e ≠ .user false_

def seenOf (false_ : α) (r : World υ × List (Event (Expr α))) :
    World υ × List (Event (Expr α)) :=
  (r.1, r.2.filter (shown false_))

/-- The state after a statement, and the evaluations of all expressions but the literal. -/
def observe (env : Surroundings α υ) (false_ : α) (s : Stmt (Expr α)) (w : World υ) :
    Option (World υ × List (Event (Expr α))) :=
  (exec (Expr.eval env) s w).map (seenOf false_)

def observeBody (env : Surroundings α υ) (false_ : α) (b : Body (Expr α)) (w : World υ) :
    Option (World υ × List (Event (Expr α))) :=
  (execBody (Expr.eval env) b w).map (seenOf false_)

/-- An event before others. -/
def seenAfter (false_ : α) (e : Event (Expr α)) (r : World υ × List (Event (Expr α))) :
    World υ × List (Event (Expr α)) :=
  (r.1, [e].filter (shown false_) ++ r.2)

theorem seenOf_cons (e : Event (Expr α)) (r : World υ × List (Event (Expr α))) :
    seenOf false_ (r.1, e :: r.2) = seenAfter false_ e (seenOf false_ r) := by
  rw [seenOf, seenAfter, seenOf, ← List.filter_append, List.singleton_append]

theorem map_seenOf_cons (e : Event (Expr α)) (o : Option (World υ × List (Event (Expr α)))) :
    (o.map fun r => (r.1, e :: r.2)).map (seenOf false_) =
      (o.map (seenOf false_)).map (seenAfter false_ e) := by
  cases o with
  | none => rfl
  | some r => exact congrArg some (seenOf_cons e r)

theorem observe_block (b : Body (Expr α)) (w : World υ) :
    observe env false_ (.block b) w =
      (observeBody env false_ b w).map (seenAfter false_ .block) := by
  rw [observe, exec, map_seenOf_cons, observeBody]

theorem observe_ifThen (c : Expr α) (t : Stmt (Expr α)) (w : World υ) :
    observe env false_ (.ifThen c t) w = (c.eval env w).bind fun r =>
      if r.1 = 0 then some (seenAfter false_ (.eval c) (r.2, []))
      else (observe env false_ t r.2).map (seenAfter false_ (.eval c)) := by
  rw [observe, exec]
  cases c.eval env w with
  | none => rfl
  | some r =>
      rw [Option.bind_some, Option.bind_some]
      split
      · exact congrArg some (seenOf_cons _ (r.2, []))
      · rw [map_seenOf_cons, observe]

theorem observe_ifElse (c : Expr α) (t e : Stmt (Expr α)) (w : World υ) :
    observe env false_ (.ifElse c t e) w = (c.eval env w).bind fun r =>
      (if r.1 = 0 then observe env false_ e r.2 else observe env false_ t r.2).map
        (seenAfter false_ (.eval c)) := by
  rw [observe, exec]
  cases c.eval env w with
  | none => rfl
  | some r =>
      rw [Option.bind_some, Option.bind_some, map_seenOf_cons]
      split <;> rfl

theorem observeBody_cons (s : Stmt (Expr α)) (rest : Body (Expr α)) (w : World υ) :
    observeBody env false_ (.cons s rest) w = (observe env false_ s w).bind fun r =>
      (observeBody env false_ rest r.1).map fun r' => (r'.1, r.2 ++ r'.2) := by
  rw [observeBody, execBody, observe]
  cases exec (Expr.eval env) s w with
  | none => rfl
  | some r =>
      rw [Option.bind_some, Option.map_some, Option.bind_some, observeBody]
      change _ = ((execBody (Expr.eval env) rest r.1).map _).map _
      cases execBody (Expr.eval env) rest r.1 with
      | none => rfl
      | some r' => simp [seenOf]

section
variable {f g : DebugMacro α → Stmt (Expr α)}

mutual
/-- Statements that do the same may stand for a macro. -/
theorem observe_fill (h : ∀ m w, observe env false_ (f m) w = observe env false_ (g m) w)
    (s : Source α) (w : World υ) :
    observe env false_ (s.fill f) w = observe env false_ (s.fill g) w := by
  cases s with
  | debug m => exact h m w
  | empty | expr | other => rfl
  | block body => simp only [Source.fill, observe_block, observeBody_fill h body w]
  | ifThen c t => simp only [Source.fill, observe_ifThen, observe_fill h t]
  | ifElse c t e =>
      simp only [Source.fill, observe_ifElse, observe_fill h t, observe_fill h e]

theorem observeBody_fill (h : ∀ m w, observe env false_ (f m) w = observe env false_ (g m) w)
    (b : SourceBody α) (w : World υ) :
    observeBody env false_ (b.fill f) w = observeBody env false_ (b.fill g) w := by
  cases b with
  | nil => rfl
  | cons s rest =>
      simp only [SourceBody.fill, observeBody_cons, observe_fill h s, observeBody_fill h rest]
end

end

section
variable (hfalse : ∀ w, env.eval false_ w = some (0, w))
include hfalse

/-- Behind the literal nothing happens. -/
theorem observe_literal (t : Stmt (Expr α)) (w : World υ) :
    observe env false_ (.ifThen (.user false_) t) w = observe env false_ .empty w := by
  have heval : Expr.eval env (.user false_) w = some (0, w) := hfalse w
  rw [observe_ifThen, heval]
  simp [seenAfter, shown, observe, exec, seenOf]

/-- With an `else` behind it, the `else` comes if nothing of the macro takes it. -/
theorem observe_graft (m : DebugMacro α) (s : Stmt (Expr α)) (w : World υ) :
    observe env false_ ((Stmt.ifThen (.user false_) m.checked.statement).graft s) w =
      observe env false_ (if m.checked.closed then s else .empty) w := by
  have heval : Expr.eval env (.user false_) w = some (0, w) := hfalse w
  rw [Stmt.graft, m.checked.isOpen_statement]
  cases m.checked.closed with
  | true =>
      simp only [Bool.not_true, Bool.false_eq_true, if_false, if_true]
      rw [observe_ifElse, heval]
      cases hs : observe env false_ s w with
      | none => simp [hs]
      | some r => simp [hs, seenAfter, shown]
  | false =>
      simp only [Bool.not_false, if_true, Bool.false_eq_true, if_false]
      exact observe_literal hfalse _ w

end

/-- A build with checks is what is written. A release build does what is written without the
debug macros, and evaluates nothing of their arguments. -/
theorem release_without (env : Surroundings α υ) (false_ : α)
    (hfalse : ∀ w, env.eval false_ w = some (0, w)) (build : Build) (s : Source α)
    (hapart : s.apart = true) :
    ∃ t, parse (s.tokens build false_) = some t ∧
      if build.DCHECK_IS_ON then t = s.fill fun m => m.checked.statement
      else ∀ w, observe env false_ t w = observe env false_ s.without w := by
  refine ⟨_, s.parse_tokens build false_ hapart, ?_⟩
  cases hbuild : build.DCHECK_IS_ON with
  | true =>
      have hstatement : DebugMacro.statement build false_ = fun m => m.checked.statement := by
        funext m
        rw [DebugMacro.statement, if_pos hbuild]
      rw [if_pos rfl, hstatement]
  | false =>
      rw [if_neg Bool.false_ne_true]
      refine fun w => observe_fill (fun m w => ?_) s w
      rw [DebugMacro.statement_of_release hbuild]
      exact observe_literal hfalse m.checked.statement w

/-- `{ DCHECK_EQ(true, true) << …; if (true) DLOG(INFO) << …; }` -/
def debugStatements : Source Bool :=
  .block (.cons (.debug (.DCHECK_EQ true true true))
    (.cons (.ifThen (.user true) (.debug (.DLOG G3LOG_INFO true))) .nil))

theorem release_without_two :
    ∃ t, parse (debugStatements.tokens ⟨true, false⟩ false) = some t ∧
      observe truthValues false t ⟨LogState.start, ()⟩ =
        some (⟨LogState.start, ()⟩, [.block, .eval (.user true)]) := by
  obtain ⟨t, ht, hwithout⟩ :=
    release_without truthValues false (fun _ => rfl) ⟨true, false⟩ debugStatements rfl
  exact ⟨t, ht, (hwithout _).trans rfl⟩

/-- An `else` behind a debug macro is not that of the program in a release build: it belongs to
`if constexpr (false)`, or to an `if` behind that and is never come to. -/
theorem release_takes_else (env : Surroundings α υ) (false_ : α)
    (hfalse : ∀ w, env.eval false_ w = some (0, w)) (build : Build)
    (hbuild : build.DCHECK_IS_ON = false) (m : DebugMacro α) (c : Expr α)
    (s : WfStmt (Expr α)) :
    ∃ t, parse (.if_ :: .lparen :: .expr c :: .rparen ::
        (m.expansion build false_ ++ .else_ :: s.val.tokens)) = some t ∧
      ∀ w, observe env false_ t w =
        observe env false_ (.ifThen c (if m.checked.closed then s.val else .empty)) w := by
  have hparse := parse_around c ⟨m.statement build false_, m.wf_statement build false_⟩ s
  simp only [m.tokens_statement] at hparse
  refine ⟨_, hparse, fun w => ?_⟩
  have haround : (m.statement build false_).around c s.val =
      .ifThen c ((Stmt.ifThen (.user false_) m.checked.statement).graft s.val) := by
    rw [DebugMacro.statement_of_release hbuild]
    rfl
  rw [haround, observe_ifThen, observe_ifThen]
  simp only [observe_graft hfalse m s.val]

/-- `if (true) DLOG(INFO) << …; else f();` calls `f`. -/
theorem release_takes_else_dlog :
    ∃ t, parse (.if_ :: .lparen :: .expr (.user true) :: .rparen ::
        ((DebugMacro.DLOG G3LOG_INFO true).expansion ⟨true, false⟩ false ++
          .else_ :: [.expr (.user true), .semicolon])) = some t ∧
      observe truthValues false t ⟨LogState.start, ()⟩ =
        some (⟨LogState.start, ()⟩, [.eval (.user true), .eval (.user true)]) := by
  obtain ⟨t, ht, hobserve⟩ := release_takes_else truthValues false (fun _ => rfl) ⟨true, false⟩ rfl
    (.DLOG G3LOG_INFO true) (.user true) ⟨.expr (.user true), rfl⟩
  exact ⟨t, ht, (hobserve _).trans rfl⟩

end

end G3log
