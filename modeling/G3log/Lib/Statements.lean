import Mathlib.Data.List.Basic

/-!
# Statements with an optional else

The statements of a language like C: an `else` belongs to the nearest `if` before it that
has none. A statement that ends in an `if` without an `else` is open, and an `else` behind
it becomes a part of it.

## Main definitions

* `Token`, `Stmt` -- the tokens and the trees, over opaque expressions.
* `parse`, `parse_tokens` -- the parser, and that it finds every tree.
* `Stmt.graft` -- an open statement with the `else` behind it.
* `exec`, `dangles` -- what a statement does, and whether it comes to such an `else`.
* `exec_graft_eq_iff` -- when an open statement between an `if` and its `else` does no harm.
-/

namespace G3log.Statements

universe u v

inductive Token (ε : Type u)
  | if_
  | else_
  | lparen
  | rparen
  | lbrace
  | rbrace
  | semicolon
  | expr (e : ε)
  /-- A statement of another kind, such as a loop. -/
  | other (e : ε)
  deriving DecidableEq

mutual
inductive Stmt (ε : Type u)
  | empty
  | expr (e : ε)
  | other (e : ε)
  | block (body : Body ε)
  | ifThen (c : ε) (t : Stmt ε)
  | ifElse (c : ε) (t e : Stmt ε)

inductive Body (ε : Type u)
  | nil
  | cons (s : Stmt ε) (rest : Body ε)
end

variable {ε : Type u}

mutual
def Stmt.tokens : Stmt ε → List (Token ε)
  | .empty => [.semicolon]
  | .expr e => [.expr e, .semicolon]
  | .other e => [.other e]
  | .block body => .lbrace :: body.tokens
  | .ifThen c t => .if_ :: .lparen :: .expr c :: .rparen :: t.tokens
  | .ifElse c t e =>
      .if_ :: .lparen :: .expr c :: .rparen :: (t.tokens ++ .else_ :: e.tokens)

/-- The statements of a block and the brace that ends it. -/
def Body.tokens : Body ε → List (Token ε)
  | .nil => [.rbrace]
  | .cons s rest => s.tokens ++ rest.tokens
end

/-- The statement ends in an `if` without an `else`. -/
def Stmt.isOpen : Stmt ε → Bool
  | .ifThen _ _ => true
  | .ifElse _ _ e => e.isOpen
  | _ => false

mutual
/-- No `else` stands behind an open statement. -/
def Stmt.wf : Stmt ε → Bool
  | .block body => body.wf
  | .ifThen _ t => t.wf
  | .ifElse _ t e => !t.isOpen && t.wf && e.wf
  | _ => true

def Body.wf : Body ε → Bool
  | .nil => true
  | .cons s rest => s.wf && rest.wf
end

/-- A statement that the parser can find. -/
abbrev WfStmt (ε : Type u) := {s : Stmt ε // s.wf = true}

/-! ## The parser -/

mutual
def parseStmt : ℕ → List (Token ε) → Option (Stmt ε × List (Token ε))
  | _ + 1, .semicolon :: ts => some (.empty, ts)
  | _ + 1, .expr e :: .semicolon :: ts => some (.expr e, ts)
  | _ + 1, .other e :: ts => some (.other e, ts)
  | n + 1, .lbrace :: ts => (parseBody n ts).map fun r => (.block r.1, r.2)
  | n + 1, .if_ :: .lparen :: .expr c :: .rparen :: ts =>
      (parseStmt n ts).bind fun r =>
        match r.2 with
        | .else_ :: ts => (parseStmt n ts).map fun r' => (.ifElse c r.1 r'.1, r'.2)
        | ts => some (.ifThen c r.1, ts)
  | _, _ => none

def parseBody : ℕ → List (Token ε) → Option (Body ε × List (Token ε))
  | _ + 1, .rbrace :: ts => some (.nil, ts)
  | n + 1, ts =>
      (parseStmt n ts).bind fun r => (parseBody n r.2).map fun r' => (.cons r.1 r'.1, r'.2)
  | 0, _ => none
end

/-- The statement that the tokens are, all of them. -/
def parse (ts : List (Token ε)) : Option (Stmt ε) :=
  (parseStmt (2 * ts.length + 1) ts).bind fun r => if r.2.isEmpty then some r.1 else none

theorem Stmt.tokens_ne_nil (s : Stmt ε) : s.tokens ≠ [] := by
  cases s with
  | empty | expr | other | block | ifThen | ifElse => simp [Stmt.tokens]

/-- A statement begins with no `else` and no brace that ends a block. -/
theorem Stmt.head?_tokens (s : Stmt ε) (rest : List (Token ε)) :
    (s.tokens ++ rest).head? ≠ some .else_ ∧ (s.tokens ++ rest).head? ≠ some .rbrace := by
  cases s with
  | empty | expr | other | block | ifThen | ifElse => simp [Stmt.tokens]

theorem Body.head?_tokens (b : Body ε) (rest : List (Token ε)) :
    (b.tokens ++ rest).head? ≠ some .else_ := by
  cases b with
  | nil => simp [Body.tokens]
  | cons s b =>
      rw [Body.tokens, List.append_assoc]
      exact (s.head?_tokens _).1

theorem parseBody_cons {n : ℕ} {ts : List (Token ε)} (h : ts.head? ≠ some .rbrace) :
    parseBody (n + 1) ts = (parseStmt n ts).bind fun r =>
      (parseBody n r.2).map fun r' => (.cons r.1 r'.1, r'.2) := by
  cases ts with
  | nil => simp [parseBody]
  | cons t ts =>
      cases t with
      | rbrace => exact absurd rfl h
      | if_ | else_ | lparen | rparen | lbrace | semicolon | expr | other => simp [parseBody]

theorem parseStmt_if {n : ℕ} {c : ε} {ts : List (Token ε)} :
    parseStmt (n + 1) (.if_ :: .lparen :: .expr c :: .rparen :: ts) =
      (parseStmt n ts).bind fun r =>
        match r.2 with
        | .else_ :: ts => (parseStmt n ts).map fun r' => (.ifElse c r.1 r'.1, r'.2)
        | ts => some (.ifThen c r.1, ts) := by
  rw [parseStmt]

/-- An `if` without an `else`, when none follows. -/
theorem parseStmt_ifThen {n : ℕ} {c : ε} {ts rest : List (Token ε)} {t : Stmt ε}
    (ht : parseStmt n ts = some (t, rest)) (hrest : rest.head? ≠ some .else_) :
    parseStmt (n + 1) (.if_ :: .lparen :: .expr c :: .rparen :: ts) =
      some (.ifThen c t, rest) := by
  rw [parseStmt_if, ht, Option.bind_some]
  cases rest with
  | nil => rfl
  | cons token rest =>
      cases token with
      | else_ => exact absurd rfl hrest
      | if_ | lparen | rparen | lbrace | rbrace | semicolon | expr | other => rfl

theorem parseStmt_ifElse {n : ℕ} {c : ε} {ts ts' rest : List (Token ε)} {t e : Stmt ε}
    (ht : parseStmt n ts = some (t, .else_ :: ts')) (he : parseStmt n ts' = some (e, rest)) :
    parseStmt (n + 1) (.if_ :: .lparen :: .expr c :: .rparen :: ts) =
      some (.ifElse c t e, rest) := by
  rw [parseStmt_if, ht, Option.bind_some]
  simp only [he, Option.map_some]

mutual
/-- The parser finds a statement before tokens that do not belong to it. -/
theorem parseStmt_tokens (s : Stmt ε) (hs : s.wf = true) (rest : List (Token ε))
    (hrest : s.isOpen = true → rest.head? ≠ some .else_) (n : ℕ)
    (hn : 2 * (s.tokens ++ rest).length < n) :
    parseStmt n (s.tokens ++ rest) = some (s, rest) := by
  obtain ⟨n, rfl⟩ : ∃ m, n = m + 1 := ⟨n - 1, by omega⟩
  cases s with
  | empty => rfl
  | expr e => rfl
  | other e => rfl
  | block body =>
      have hlength : 2 * (body.tokens ++ rest).length + 1 < n := by
        simp only [Stmt.tokens, List.cons_append, List.length_cons] at hn
        omega
      have hbody := parseBody_tokens body hs rest n hlength
      rw [Stmt.tokens, List.cons_append, parseStmt, hbody]
      rfl
  | ifThen c t =>
      have hlength : 2 * (t.tokens ++ rest).length < n := by
        simp only [Stmt.tokens, List.cons_append, List.length_cons] at hn
        omega
      have hnone := hrest rfl
      exact parseStmt_ifThen (parseStmt_tokens t hs rest (fun _ => hnone) n hlength) hnone
  | ifElse c t e =>
      simp only [Stmt.wf, Bool.and_eq_true, Bool.not_eq_true'] at hs
      obtain ⟨⟨hclosed, ht⟩, he⟩ := hs
      have hlength : 2 * (t.tokens ++ (.else_ :: e.tokens ++ rest)).length < n := by
        simp only [Stmt.tokens, List.cons_append, List.length_cons, List.append_assoc,
          List.length_append] at hn ⊢
        omega
      have hlength' : 2 * (e.tokens ++ rest).length < n := by
        simp only [List.cons_append, List.length_cons, List.length_append] at hlength ⊢
        omega
      have hthen := parseStmt_tokens t ht (.else_ :: e.tokens ++ rest) (by simp [hclosed]) n
        hlength
      have helse := parseStmt_tokens e he rest hrest n hlength'
      rw [Stmt.tokens]
      simp only [List.cons_append, List.append_assoc] at hthen ⊢
      exact parseStmt_ifElse hthen helse

theorem parseBody_tokens (b : Body ε) (hb : b.wf = true) (rest : List (Token ε)) (n : ℕ)
    (hn : 2 * (b.tokens ++ rest).length + 1 < n) :
    parseBody n (b.tokens ++ rest) = some (b, rest) := by
  obtain ⟨n, rfl⟩ : ∃ m, n = m + 1 := ⟨n - 1, by omega⟩
  cases b with
  | nil => rfl
  | cons s b =>
      simp only [Body.wf, Bool.and_eq_true] at hb
      have hpos := List.length_pos_of_ne_nil s.tokens_ne_nil
      simp only [Body.tokens, List.append_assoc, List.length_append] at hn ⊢
      have hstmt := parseStmt_tokens s hb.1 (b.tokens ++ rest) (fun _ => b.head?_tokens rest) n
        (by simp only [List.length_append]; omega)
      have hbody := parseBody_tokens b hb.2 rest n (by simp only [List.length_append]; omega)
      rw [parseBody_cons (s.head?_tokens _).2, hstmt, Option.bind_some]
      simp only [hbody, Option.map_some]
end

/-- Every tree without an `else` behind an open statement is found. -/
theorem parse_tokens (s : Stmt ε) (hs : s.wf = true) : parse s.tokens = some s := by
  have hstmt := parseStmt_tokens s hs [] (by simp) (2 * s.tokens.length + 1) (by simp)
  rw [List.append_nil] at hstmt
  rw [parse, hstmt]
  rfl

/-! ## An else behind an open statement -/

/-- The `else` becomes that of the last `if`. -/
def Stmt.graft : Stmt ε → Stmt ε → Stmt ε
  | .ifThen c t, e => if t.isOpen then .ifThen c (t.graft e) else .ifElse c t e
  | .ifElse c t e', e => .ifElse c t (e'.graft e)
  | s, _ => s

theorem Stmt.graft_tokens (s e : Stmt ε) (h : s.isOpen = true) :
    (s.graft e).tokens = s.tokens ++ .else_ :: e.tokens := by
  cases s with
  | empty | expr | other | block => cases h
  | ifThen c t =>
      rw [Stmt.graft]
      split
      · next ht => simp only [Stmt.tokens, graft_tokens t e ht, List.cons_append]
      · rfl
  | ifElse c t e' =>
      simp only [Stmt.graft, Stmt.tokens, graft_tokens e' e h, List.cons_append,
        List.append_assoc]

theorem Stmt.graft_wf (s e : Stmt ε) (hs : s.wf = true) (he : e.wf = true)
    (h : s.isOpen = true) : (s.graft e).wf = true := by
  cases s with
  | empty | expr | other | block => cases h
  | ifThen c t =>
      rw [Stmt.graft]
      split
      · next ht => exact graft_wf t e hs he ht
      · next ht =>
          have hclosed : t.isOpen = false := Bool.eq_false_iff.mpr ht
          have hwf : t.wf = true := hs
          simp [Stmt.wf, hclosed, hwf, he]
  | ifElse c t e' =>
      simp only [Stmt.wf, Bool.and_eq_true] at hs
      simp only [Stmt.graft, Stmt.wf, Bool.and_eq_true]
      exact ⟨hs.1, graft_wf e' e hs.2 he h⟩

/-- What is found for an `if` around a statement with an `else` behind it. -/
def Stmt.around (c : ε) (s e : Stmt ε) : Stmt ε :=
  if s.isOpen then .ifThen c (s.graft e) else .ifElse c s e

theorem parse_around (c : ε) (s e : WfStmt ε) :
    parse (.if_ :: .lparen :: .expr c :: .rparen :: (s.val.tokens ++ .else_ :: e.val.tokens)) =
      some (s.val.around c e.val) := by
  have htokens : (s.val.around c e.val).tokens = .if_ :: .lparen :: .expr c :: .rparen ::
      (s.val.tokens ++ .else_ :: e.val.tokens) := by
    rw [Stmt.around]
    split
    · next h => rw [Stmt.tokens, Stmt.graft_tokens _ _ h]
    · rfl
  have hwf : (s.val.around c e.val).wf = true := by
    rw [Stmt.around]
    split
    · next h => exact Stmt.graft_wf _ _ s.prop e.prop h
    · next h =>
        rw [Stmt.wf, s.prop, e.prop, Bool.eq_false_iff.mpr h]
        rfl
  rw [← htokens]
  exact parse_tokens _ hwf

/-! ## What a statement does -/

/-- What an observer sees. -/
inductive Event (ε : Type u)
  | empty
  | block
  | eval (e : ε)
  deriving DecidableEq

section
variable {σ : Type v} (eval : ε → σ → Option (Int × σ))

mutual
/-- The state after a statement and the events, if the evaluations have results. -/
def exec : Stmt ε → σ → Option (σ × List (Event ε))
  | .empty, x => some (x, [.empty])
  | .expr e, x => (eval e x).map fun r => (r.2, [.eval e])
  | .other e, x => (eval e x).map fun r => (r.2, [.eval e])
  | .block body, x => (execBody body x).map fun r => (r.1, .block :: r.2)
  | .ifThen c t, x =>
      (eval c x).bind fun r =>
        if r.1 = 0 then some (r.2, [.eval c])
        else (exec t r.2).map fun r' => (r'.1, .eval c :: r'.2)
  | .ifElse c t e, x =>
      (eval c x).bind fun r =>
        (if r.1 = 0 then exec e r.2 else exec t r.2).map fun r' => (r'.1, .eval c :: r'.2)

def execBody : Body ε → σ → Option (σ × List (Event ε))
  | .nil, x => some (x, [])
  | .cons s rest, x =>
      (exec s x).bind fun r => (execBody rest r.1).map fun r' => (r'.1, r.2 ++ r'.2)
end

/-- An open statement comes to its last `if`, and the condition there is false. -/
def dangles : Stmt ε → σ → Bool
  | .ifThen c t, x =>
      (eval c x).any fun r => if t.isOpen then r.1 ≠ 0 && dangles t r.2 else r.1 = 0
  | .ifElse c _ e, x => (eval c x).any fun r => r.1 = 0 && dangles e r.2
  | _, _ => false

variable {eval} {x : σ}

/-- No statement goes unseen. -/
theorem exec_ne_nil {s : Stmt ε} {r : σ × List (Event ε)} (h : exec eval s x = some r) :
    r.2 ≠ [] := by
  cases s with
  | empty =>
      rw [← Option.some.inj h]
      simp
  | expr e | other e =>
      obtain ⟨r', -, rfl⟩ := Option.map_eq_some_iff.mp h
      simp
  | block body =>
      rw [exec] at h
      obtain ⟨r', -, rfl⟩ := Option.map_eq_some_iff.mp h
      simp
  | ifThen c t =>
      rw [exec] at h
      obtain ⟨r', -, h⟩ := Option.bind_eq_some_iff.mp h
      split at h
      · rw [← Option.some.inj h]
        simp
      · obtain ⟨r'', -, rfl⟩ := Option.map_eq_some_iff.mp h
        simp
  | ifElse c t e =>
      rw [exec] at h
      obtain ⟨r', -, h⟩ := Option.bind_eq_some_iff.mp h
      obtain ⟨r'', -, rfl⟩ := Option.map_eq_some_iff.mp h
      simp

/-- With an `else` grafted on it, an open statement executes that where it dangles, and does
nothing else than before. -/
theorem exec_graft (s e : Stmt ε) (h : s.isOpen = true) (x : σ) :
    exec eval (s.graft e) x =
      if dangles eval s x then
        (exec eval s x).bind fun r => (exec eval e r.1).map fun r' => (r'.1, r.2 ++ r'.2)
      else exec eval s x := by
  cases s with
  | empty | expr | other | block => cases h
  | ifThen c t =>
      rw [Stmt.graft]
      cases hopen : t.isOpen with
      | true =>
          simp only [if_true, exec, dangles, hopen]
          cases hc : eval c x with
          | none => simp
          | some r =>
              by_cases hv : r.1 = 0
              · simp [hv]
              · simp only [Option.bind_some, hv, if_false, exec_graft t e hopen r.2]
                by_cases hd : dangles eval t r.2 = true
                · cases exec eval t r.2 <;> simp [hd, hv, Function.comp_def]
                · simp [hd]
      | false =>
          simp only [Bool.false_eq_true, if_false, exec, dangles, hopen]
          cases hc : eval c x with
          | none => simp
          | some r =>
              by_cases hv : r.1 = 0
              · simp [hv]
              · simp [hv]
  | ifElse c t e' =>
      simp only [Stmt.graft, exec, dangles]
      obtain hc | ⟨r, hc⟩ := Option.eq_none_or_eq_some (eval c x)
      · simp [hc]
      · by_cases hv : r.1 = 0
        · simp only [hc, Option.bind_some, hv, if_true, exec_graft e' e h r.2]
          by_cases hd : dangles eval e' r.2 = true
          · cases exec eval e' r.2 <;> simp [hd, hv, Function.comp_def]
          · simp [hd]
        · simp [hc, hv]

/-- Where it dangles, it has a result without the `else`. -/
theorem exists_exec_of_dangles (s : Stmt ε) (x : σ) (h : dangles eval s x = true) :
    ∃ r, exec eval s x = some r := by
  cases s with
  | empty | expr | other | block => cases h
  | ifThen c t =>
      rw [dangles] at h
      obtain ⟨r, hc, hr⟩ := (Option.any_eq_true _ _).mp h
      rw [exec, hc, Option.bind_some]
      split
      · exact ⟨_, rfl⟩
      · next hv =>
          split at hr
          · rw [Bool.and_eq_true] at hr
            obtain ⟨r', hr'⟩ := exists_exec_of_dangles t r.2 hr.2
            rw [hr']
            exact ⟨_, rfl⟩
          · exact absurd (of_decide_eq_true hr) hv
  | ifElse c t e =>
      rw [dangles] at h
      obtain ⟨r, hc, hr⟩ := (Option.any_eq_true _ _).mp h
      rw [Bool.and_eq_true, decide_eq_true_eq] at hr
      obtain ⟨r', hr'⟩ := exists_exec_of_dangles e r.2 hr.2
      rw [exec, hc, Option.bind_some, if_pos hr.1, hr']
      exact ⟨_, rfl⟩

/-- An `if` around an open statement, with an `else` behind it, does what was meant unless its
condition is false, or true and the statement dangles. -/
theorem exec_graft_eq_iff (c : ε) (s e : Stmt ε) (h : s.isOpen = true) (x : σ) :
    exec eval (.ifThen c (s.graft e)) x = exec eval (.ifElse c s e) x ↔
      ∀ r, eval c x = some r → r.1 ≠ 0 ∧ dangles eval s r.2 = false := by
  rw [exec, exec]
  cases hc : eval c x with
  | none => simp
  | some r =>
      simp only [Option.bind_some, Option.some.injEq, forall_eq']
      by_cases hv : r.1 = 0
      · simp only [hv, if_true, ne_eq, not_true_eq_false, false_and, iff_false]
        intro heq
        obtain ⟨r', hr', hsame⟩ := Option.map_eq_some_iff.mp heq.symm
        have hnil : r'.2 = [] := by simpa using (Prod.mk.inj hsame).2
        exact exec_ne_nil hr' hnil
      · simp only [hv, if_false, exec_graft s e h, ne_eq, not_false_eq_true, true_and]
        cases hd : dangles eval s r.2 with
        | false => simp
        | true =>
            obtain ⟨r₁, hr₁⟩ := exists_exec_of_dangles s r.2 hd
            simp only [if_true, hr₁, Option.bind_some, Option.map_some, Option.map_map,
              Bool.true_eq_false, iff_false]
            intro heq
            obtain ⟨r₂, hr₂, hsame⟩ := Option.map_eq_some_iff.mp heq
            have hnil : r₂.2 = [] := by simpa using (Prod.mk.inj hsame).2
            exact exec_ne_nil hr₂ hnil

end

end G3log.Statements
