import Mathlib.Data.List.Basic

/-!
# Expressions by precedence

The expressions of a language like C: binary operators of several levels that group to the
left, and below them the conditional operator and assignment, which group to the right. A
tree keeps its parentheses, so its tokens read it out, and it is the tree of its tokens if
every operand binds tightly enough for its place.

## Main definitions

* `Levels` -- how tightly the operators bind.
* `Token`, `Tree` -- tokens and trees.
* `Tree.fits`, `Tree.wf` -- an operand may stand in its place without parentheses.
* `parse`, `parse_tokens` -- the parser, and that it finds every such tree.
-/

namespace G3log.Precedence

universe u

/-- The levels of binary operators, above that of assignment, which is one. -/
structure Levels (β : Type u) where
  level : β → ℕ
  /-- The level of what needs no parentheses anywhere. -/
  top : ℕ
  two_le : ∀ o, 2 ≤ level o
  lt_top : ∀ o, level o < top
  one_lt_top : 1 < top

inductive Token (α β μ γ : Type u)
  | atom (a : α)
  | unary (m : μ)
  | binary (o : β)
  | assign (g : γ)
  | question
  | colon
  | lparen
  | rparen
  deriving DecidableEq

inductive Tree (α β μ γ : Type u)
  | atom (a : α)
  | paren (t : Tree α β μ γ)
  | unary (m : μ) (t : Tree α β μ γ)
  | binary (o : β) (l r : Tree α β μ γ)
  | cond (c t e : Tree α β μ γ)
  | assign (g : γ) (l r : Tree α β μ γ)
  deriving DecidableEq

variable {α β μ γ : Type u}

def Tree.tokens : Tree α β μ γ → List (Token α β μ γ)
  | .atom a => [.atom a]
  | .paren t => .lparen :: (t.tokens ++ [.rparen])
  | .unary m t => .unary m :: t.tokens
  | .binary o l r => l.tokens ++ .binary o :: r.tokens
  | .cond c t e => c.tokens ++ .question :: (t.tokens ++ .colon :: e.tokens)
  | .assign g l r => l.tokens ++ .assign g :: r.tokens

/-- The operand of a unary operator. -/
def Tree.isUnary : Tree α β μ γ → Bool
  | .atom _ => true
  | .paren _ => true
  | .unary _ _ => true
  | _ => false

variable (G : Levels β)

/-- The tree may stand where operators from level `p` on are read. -/
def Tree.fits (p : ℕ) : Tree α β μ γ → Bool
  | .binary o _ _ => p ≤ G.level o
  | .cond _ _ _ => p ≤ 1
  | .assign _ _ _ => p ≤ 1
  | _ => true

/-- Every operand fits its place. -/
def Tree.wf : Tree α β μ γ → Bool
  | .atom _ => true
  | .paren t => t.wf
  | .unary _ t => t.isUnary && t.wf
  | .binary o l r => l.fits G (G.level o) && r.fits G (G.level o + 1) && l.wf && r.wf
  | .cond c t e => c.fits G 2 && c.wf && t.wf && e.wf
  | .assign _ l r => l.fits G 2 && l.wf && r.wf

/-! ## The parser -/

mutual
/-- An expression of operators from level `p` on. -/
def parseExpr : ℕ → ℕ → List (Token α β μ γ) → Option (Tree α β μ γ × List (Token α β μ γ))
  | n + 1, p, .atom a :: ts => parseRest n p (.atom a) ts
  | n + 1, p, .unary m :: ts =>
      (parseExpr n G.top ts).bind fun r => parseRest n p (.unary m r.1) r.2
  | n + 1, p, .lparen :: ts =>
      (parseExpr n 1 ts).bind fun r =>
        match r.2 with
        | .rparen :: ts => parseRest n p (.paren r.1) ts
        | _ => none
  | _, _, _ => none

/-- What follows an operand. -/
def parseRest :
    ℕ → ℕ → Tree α β μ γ → List (Token α β μ γ) → Option (Tree α β μ γ × List (Token α β μ γ))
  | n + 1, p, l, .binary o :: ts =>
      if p ≤ G.level o then
        (parseExpr n (G.level o + 1) ts).bind fun r => parseRest n p (.binary o l r.1) r.2
      else some (l, .binary o :: ts)
  | n + 1, p, l, .question :: ts =>
      if p ≤ 1 then
        (parseExpr n 1 ts).bind fun r =>
          match r.2 with
          | .colon :: ts =>
              (parseExpr n 1 ts).bind fun r' => parseRest n p (.cond l r.1 r'.1) r'.2
          | _ => none
      else some (l, .question :: ts)
  | n + 1, p, l, .assign g :: ts =>
      if p ≤ 1 then
        (parseExpr n 1 ts).bind fun r => parseRest n p (.assign g l r.1) r.2
      else some (l, .assign g :: ts)
  | _ + 1, _, l, ts => some (l, ts)
  | 0, _, _, _ => none
end

/-- The expression that the tokens are, all of them. -/
def parse (ts : List (Token α β μ γ)) : Option (Tree α β μ γ) :=
  (parseExpr G (ts.length + 1) 1 ts).bind fun r => if r.2.isEmpty then some r.1 else none

variable {G}

/-- No operator from level `p` on follows. -/
def stops (G : Levels β) (p : ℕ) : List (Token α β μ γ) → Prop
  | .binary o :: _ => G.level o < p
  | .question :: _ => 1 < p
  | .assign _ :: _ => 1 < p
  | _ => True

theorem stops_nil (p : ℕ) : stops G p ([] : List (Token α β μ γ)) := trivial

theorem stops_colon (p : ℕ) (ts : List (Token α β μ γ)) : stops G p (.colon :: ts) := trivial

theorem stops_rparen (p : ℕ) (ts : List (Token α β μ γ)) : stops G p (.rparen :: ts) := trivial

theorem stops_mono {p q : ℕ} (hpq : p ≤ q) {ts : List (Token α β μ γ)} (h : stops G p ts) :
    stops G q ts := by
  cases ts with
  | nil => trivial
  | cons t ts =>
      cases t with
      | binary o => exact Nat.lt_of_lt_of_le h hpq
      | question | assign => exact Nat.lt_of_lt_of_le h hpq
      | atom | unary | colon | lparen | rparen => trivial

/-- No operator is read at the top level. -/
theorem stops_top (ts : List (Token α β μ γ)) : stops G G.top ts := by
  cases ts with
  | nil => trivial
  | cons t ts =>
      cases t with
      | binary o => exact G.lt_top o
      | question | assign => exact G.one_lt_top
      | atom | unary | colon | lparen | rparen => trivial

theorem parseRest_stops {p n : ℕ} (hn : 0 < n) {ts : List (Token α β μ γ)} (h : stops G p ts)
    (l : Tree α β μ γ) : parseRest G n p l ts = some (l, ts) := by
  obtain ⟨n, rfl⟩ := Nat.exists_eq_succ_of_ne_zero (Nat.pos_iff_ne_zero.mp hn)
  cases ts with
  | nil => simp [parseRest]
  | cons t ts =>
      cases t with
      | binary o => rw [parseRest, if_neg (Nat.not_le.mpr h)]
      | question => rw [parseRest, if_neg (Nat.not_le.mpr h)]
      | assign g => rw [parseRest, if_neg (Nat.not_le.mpr h)]
      | atom | unary | colon | lparen | rparen => simp [parseRest]

/-- The level from which on no operator may follow a tree. -/
def Tree.follow (G : Levels β) : Tree α β μ γ → ℕ
  | .binary o _ _ => G.level o + 1
  | .cond _ _ _ => 1
  | .assign _ _ _ => 1
  | _ => G.top

/-- An operand on the left of a looser operator. -/
theorem Tree.stops_follow {t : Tree α β μ γ} {p : ℕ} (hp : 2 ≤ p) (ht : t.fits G p = true)
    {ts : List (Token α β μ γ)} (hts : stops G (p + 1) ts) : stops G (t.follow G) ts := by
  cases t with
  | atom | paren | unary => exact stops_top ts
  | binary o l r =>
      have hle : p ≤ G.level o := of_decide_eq_true ht
      exact stops_mono (by rw [follow]; omega) hts
  | cond | assign =>
      have hle : p ≤ 1 := of_decide_eq_true ht
      omega

theorem Tree.fits_mono {p q : ℕ} (hpq : p ≤ q) {t : Tree α β μ γ} (h : t.fits G q = true) :
    t.fits G p = true := by
  cases t with
  | atom | paren | unary => rfl
  | binary o l r => exact decide_eq_true (Nat.le_trans hpq (of_decide_eq_true h))
  | cond | assign => exact decide_eq_true (Nat.le_trans hpq (of_decide_eq_true h))

/-- Everything fits where all operators are read. -/
theorem Tree.fits_one (t : Tree α β μ γ) : t.fits G 1 = true := by
  cases t with
  | atom | paren | unary | cond | assign => rfl
  | binary o l r => exact decide_eq_true (Nat.le_of_lt (G.two_le o))

theorem Tree.one_le_follow (t : Tree α β μ γ) : 1 ≤ t.follow G := by
  have htop := G.one_lt_top
  cases t with
  | atom | paren | unary =>
      simp only [follow]
      omega
  | binary =>
      simp only [follow]
      omega
  | cond | assign => exact Nat.le_refl 1

/-- The parser has read `t` and goes on with what follows it, with enough fuel. -/
def Reads (G : Levels β) (n p : ℕ) (ts : List (Token α β μ γ)) (t : Tree α β μ γ)
    (rest : List (Token α β μ γ)) : Prop :=
  ∃ m, rest.length < m ∧ parseExpr G n p ts = parseRest G m p t rest

theorem Reads.eq {n p : ℕ} {ts rest : List (Token α β μ γ)} {t : Tree α β μ γ}
    (h : Reads G n p ts t rest) (hstops : stops G p rest) :
    parseExpr G n p ts = some (t, rest) := by
  obtain ⟨m, hm, heq⟩ := h
  rw [heq, parseRest_stops (Nat.zero_lt_of_lt hm) hstops]

theorem reads_paren {n p : ℕ} {ts rest : List (Token α β μ γ)} {t : Tree α β μ γ}
    (ht : parseExpr G n 1 ts = some (t, .rparen :: rest)) (hn : rest.length < n) :
    Reads G (n + 1) p (.lparen :: ts) (.paren t) rest := by
  refine ⟨n, hn, ?_⟩
  rw [parseExpr, ht, Option.bind_some]

theorem reads_unary {n p : ℕ} {m : μ} {ts rest : List (Token α β μ γ)} {t : Tree α β μ γ}
    (ht : parseExpr G n G.top ts = some (t, rest)) (hn : rest.length < n) :
    Reads G (n + 1) p (.unary m :: ts) (.unary m t) rest := by
  refine ⟨n, hn, ?_⟩
  rw [parseExpr, ht, Option.bind_some]

theorem Reads.binary {n p : ℕ} {o : β} {ts ts' rest : List (Token α β μ γ)}
    {l r : Tree α β μ γ} (hp : p ≤ G.level o) (hl : Reads G n p ts l (.binary o :: ts'))
    (hr : ∀ n, ts'.length < n → parseExpr G n (G.level o + 1) ts' = some (r, rest))
    (hrest : rest.length ≤ ts'.length) : Reads G n p ts (.binary o l r) rest := by
  obtain ⟨m, hm, heq⟩ := hl
  obtain ⟨m, rfl⟩ := Nat.exists_eq_succ_of_ne_zero (Nat.ne_zero_of_lt hm)
  rw [List.length_cons] at hm
  refine ⟨m, by omega, ?_⟩
  rw [heq, parseRest, if_pos hp, hr m (by omega), Option.bind_some]

theorem Reads.assign {n p : ℕ} {g : γ} {ts ts' rest : List (Token α β μ γ)}
    {l r : Tree α β μ γ} (hp : p ≤ 1) (hl : Reads G n p ts l (.assign g :: ts'))
    (hr : ∀ n, ts'.length < n → parseExpr G n 1 ts' = some (r, rest))
    (hrest : rest.length ≤ ts'.length) : Reads G n p ts (.assign g l r) rest := by
  obtain ⟨m, hm, heq⟩ := hl
  obtain ⟨m, rfl⟩ := Nat.exists_eq_succ_of_ne_zero (Nat.ne_zero_of_lt hm)
  rw [List.length_cons] at hm
  refine ⟨m, by omega, ?_⟩
  rw [heq, parseRest, if_pos hp, hr m (by omega), Option.bind_some]

theorem Reads.cond {n p : ℕ} {ts ts' ts'' rest : List (Token α β μ γ)}
    {c t e : Tree α β μ γ} (hp : p ≤ 1) (hc : Reads G n p ts c (.question :: ts'))
    (ht : ∀ n, ts'.length < n → parseExpr G n 1 ts' = some (t, .colon :: ts''))
    (he : ∀ n, ts''.length < n → parseExpr G n 1 ts'' = some (e, rest))
    (hlt : ts''.length < ts'.length) (hrest : rest.length ≤ ts''.length) :
    Reads G n p ts (.cond c t e) rest := by
  obtain ⟨m, hm, heq⟩ := hc
  obtain ⟨m, rfl⟩ := Nat.exists_eq_succ_of_ne_zero (Nat.ne_zero_of_lt hm)
  rw [List.length_cons] at hm
  refine ⟨m, by omega, ?_⟩
  rw [heq, parseRest, if_pos hp, ht m (by omega), Option.bind_some]
  simp only [he m (by omega), Option.bind_some]

/-- The parser reads a tree before tokens that no operator of it takes. -/
theorem reads_tokens {t : Tree α β μ γ} (hwf : t.wf G = true) {p : ℕ}
    (hfits : t.fits G p = true) {rest : List (Token α β μ γ)}
    (hrest : stops G (t.follow G) rest) {n : ℕ} (hn : (t.tokens ++ rest).length < n) :
    Reads G n p (t.tokens ++ rest) t rest := by
  induction t generalizing p rest n with
  | atom a =>
      obtain ⟨n, rfl⟩ := Nat.exists_eq_succ_of_ne_zero (Nat.ne_zero_of_lt hn)
      refine ⟨n, ?_, ?_⟩
      · simp only [Tree.tokens, List.length_append, List.length_singleton] at hn
        omega
      · simp only [Tree.tokens, List.singleton_append, parseExpr]
  | paren t ih =>
      obtain ⟨n, rfl⟩ := Nat.exists_eq_succ_of_ne_zero (Nat.ne_zero_of_lt hn)
      simp only [Tree.tokens, List.cons_append, List.append_assoc, List.nil_append,
        List.length_cons, List.length_append] at hn ⊢
      have hinner : Reads G n 1 (t.tokens ++ .rparen :: rest) t (.rparen :: rest) :=
        ih hwf t.fits_one (stops_rparen _ rest)
          (by simp only [List.length_append, List.length_cons]; omega)
      exact reads_paren (hinner.eq (stops_rparen _ rest)) (by omega)
  | unary m t ih =>
      obtain ⟨n, rfl⟩ := Nat.exists_eq_succ_of_ne_zero (Nat.ne_zero_of_lt hn)
      simp only [Tree.wf, Bool.and_eq_true] at hwf
      simp only [Tree.tokens, List.cons_append, List.length_cons, List.length_append] at hn ⊢
      have hunary : t.fits G G.top = true ∧ t.follow G = G.top := by
        cases t with
        | atom | paren | unary => exact ⟨rfl, rfl⟩
        | binary | cond | assign => cases hwf.1
      have hinner := ih hwf.2 hunary.1 (by rw [hunary.2]; exact stops_top rest) (n := n)
        (by simp only [List.length_append]; omega)
      exact reads_unary (hinner.eq (stops_top rest)) (by omega)
  | binary o l r ihl ihr =>
      simp only [Tree.wf, Bool.and_eq_true] at hwf
      obtain ⟨⟨⟨hlfits, hrfits⟩, hlwf⟩, hrwf⟩ := hwf
      have hp : p ≤ G.level o := of_decide_eq_true hfits
      have htwo := G.two_le o
      rw [Tree.tokens, List.append_assoc, List.cons_append] at hn ⊢
      have hlfollow : stops G (l.follow G) (.binary o :: (r.tokens ++ rest)) :=
        Tree.stops_follow htwo hlfits (Nat.lt_succ_self _)
      have hlfits' : l.fits G p = true := Tree.fits_mono hp hlfits
      have hrfollow : stops G (r.follow G) rest :=
        Tree.stops_follow (by omega) hrfits (stops_mono (Nat.le_succ _) hrest)
      apply Reads.binary hp (ihl hlwf hlfits' hlfollow hn)
      · intro n hn
        exact (ihr hrwf hrfits hrfollow hn).eq hrest
      · simp only [List.length_append]
        omega
  | cond c t e ihc iht ihe =>
      simp only [Tree.wf, Bool.and_eq_true] at hwf
      obtain ⟨⟨⟨hcfits, hcwf⟩, htwf⟩, hewf⟩ := hwf
      have hp : p ≤ 1 := of_decide_eq_true hfits
      rw [Tree.tokens, List.append_assoc, List.cons_append, List.append_assoc,
        List.cons_append] at hn ⊢
      have hcfollow : stops G (c.follow G)
          (.question :: (t.tokens ++ .colon :: (e.tokens ++ rest))) :=
        Tree.stops_follow (Nat.le_refl 2) hcfits (by simp [stops])
      have hefollow : stops G (e.follow G) rest := stops_mono e.one_le_follow hrest
      apply Reads.cond hp (ihc hcwf (Tree.fits_mono (by omega) hcfits) hcfollow hn)
      · intro n hn
        have hinner : Reads G n 1 (t.tokens ++ .colon :: (e.tokens ++ rest)) t
            (.colon :: (e.tokens ++ rest)) := iht htwf t.fits_one (stops_colon _ _) hn
        exact hinner.eq (stops_colon _ _)
      · intro n hn
        exact (ihe hewf e.fits_one hefollow hn).eq hrest
      · simp only [List.length_append, List.length_cons]
        omega
      · simp only [List.length_append]
        omega
  | assign g l r ihl ihr =>
      simp only [Tree.wf, Bool.and_eq_true] at hwf
      obtain ⟨⟨hlfits, hlwf⟩, hrwf⟩ := hwf
      have hp : p ≤ 1 := of_decide_eq_true hfits
      rw [Tree.tokens, List.append_assoc, List.cons_append] at hn ⊢
      have hlfollow : stops G (l.follow G) (.assign g :: (r.tokens ++ rest)) :=
        Tree.stops_follow (Nat.le_refl 2) hlfits (by simp [stops])
      have hrfollow : stops G (r.follow G) rest := stops_mono r.one_le_follow hrest
      apply Reads.assign hp (ihl hlwf (Tree.fits_mono (by omega) hlfits) hlfollow hn)
      · intro n hn
        exact (ihr hrwf r.fits_one hrfollow hn).eq hrest
      · simp only [List.length_append]
        omega

/-- A tree all of whose operands fit is the tree of its tokens. -/
theorem parse_tokens {t : Tree α β μ γ} (hwf : t.wf G = true) : parse G t.tokens = some t := by
  have hreads : Reads G (t.tokens.length + 1) 1 (t.tokens ++ []) t [] :=
    reads_tokens hwf t.fits_one (stops_nil _) (by simp)
  rw [List.append_nil] at hreads
  rw [parse, hreads.eq (stops_nil _)]
  rfl

end G3log.Precedence
