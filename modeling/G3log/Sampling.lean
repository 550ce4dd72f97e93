import G3log.LogStatements

/-!
# Sampling statements

Three forms of a log statement count their executions and log only some of them. Each has
its own scheme for its `static int`s, which are never reset. `decisions_eq` says that each
scheme comes to the law it stands for; but the first two forms also keep a counter that
nothing reads and that goes up for ever.

## Main definitions

* `Sampling` -- a sampling statement of the program: its form, its level and its constant.
* `Form.due` -- when an execution logs, by the executions before it.
* `decisions` -- whether the executions at a place log, in a run.
* `Statement.sums` -- the results of the counters' arithmetic.
-/

namespace G3log

/-- The statements that count. -/
inductive Form
  | everyN
  | ifEveryN
  | firstN
  deriving DecidableEq, Repr

/-- A sampling statement of the program. -/
structure Sampling where
  form : Form
  level : LEVELS
  n : Int
  pos : 1 ≤ n
  lt : n < INT_MAX

/-- The statement in an execution; only one form has a condition. -/
def Sampling.statement (s : Sampling) (condition : Bool) (text : List Char) : Statement :=
  match s.form with
  | .everyN => .GLOG_LOG_EVERY_N s.level s.n text
  | .ifEveryN => .GLOG_LOG_IF_EVERY_N s.level condition s.n text
  | .firstN => .LOG_FIRST_N s.level s.n text

/-- An execution logs, after others with these conditions. -/
def Form.due (n : Int) (earlier : List Bool) (condition : Bool) : Form → Bool
  | .everyN => (earlier.length : Int) % n = 0
  | .ifEveryN => condition && ((earlier.count true : Int) % n = 0)
  | .firstN => (earlier.length : Int) < n

/-- The condition of a sampling statement; it is true for the forms that have none. -/
def Statement.sampled : Statement → Option Bool
  | .GLOG_LOG_EVERY_N _ _ _ => some true
  | .GLOG_LOG_IF_EVERY_N _ condition _ _ => some condition
  | .LOG_FIRST_N _ _ _ => some true
  | _ => none

/-- The condition of an action that executes the sampling statement at a place. -/
def LogAction.sampledAt (site : Site) : LogAction → Option Bool
  | .log site' _ statement => if site' = site then statement.sampled else none
  | _ => none

/-- The conditions of the executions at a place. -/
def conditions (site : Site) (actions : List LogAction) : List Bool :=
  actions.filterMap (LogAction.sampledAt site)

/-- Every sampling statement that is executed is the one of its place in the program. -/
def Follows (program : Site → Sampling) (actions : List LogAction) : Prop :=
  ∀ site stackdump statement, .log site stackdump statement ∈ actions →
    ∀ condition, statement.sampled = some condition →
      ∃ text, statement = (program site).statement condition text

namespace LogState

/-- Whether the executions at a place log. -/
def decisions (site : Site) : LogState → List LogAction → List Bool
  | _, [] => []
  | σ, a :: actions =>
      match σ.step a with
      | none => []
      | some (σ', out) =>
          if (a.sampledAt site).isSome then out.isSome :: decisions site σ' actions
          else decisions site σ' actions

/-- The sampling statement at a place finds its level enabled. -/
def EnabledAt (program : Site → Sampling) (site : Site) (σ : LogState) (a : LogAction) : Prop :=
  (a.sampledAt site).isSome → σ.Enabled (program site).level

instance (program : Site → Sampling) (site : Site) (σ : LogState) (a : LogAction) :
    Decidable (σ.EnabledAt program site a) :=
  inferInstanceAs (Decidable (_ → _))

end LogState

/-! ## What the counters hold -/

/-- The counters of a sampling statement after executions with these conditions. -/
def Form.Holds (n : Int) (done : List Bool) (k : Counters) : Form → Prop
  | .everyN => k.LOG_OCCURRENCES = wrapInt done.length ∧
      k.LOG_OCCURRENCES_MOD_N = if done = [] then 0 else ((done.length : Int) - 1) % n + 1
  | .ifEveryN => k.LOG_OCCURRENCES = wrapInt done.length ∧
      k.LOG_OCCURRENCES_MOD_N = (done.count true : Int) % n
  | .firstN => k.LOG_OCCURRENCES = min (done.length : Int) (n + 1)

theorem Form.holds_zero {n : Int} (hn : 1 ≤ n) (form : Form) : form.Holds n [] ⟨0, 0⟩ := by
  cases form with
  | everyN => simp [Form.Holds, wrapInt]
  | ifEveryN => simp [Form.Holds, wrapInt]
  | firstN =>
      simp only [Form.Holds, List.length_nil, Nat.cast_zero]
      omega

theorem wrapInt_of_le {n : Int} (h : 0 ≤ n) (h' : n ≤ INT_MAX) : wrapInt n = n := by
  have hmax : (INT_MAX : Int) = 2147483647 := rfl
  rw [wrapInt, Int.bmod_eq_of_le]
  · omega
  · omega

theorem wrapInt_wrapInt_add (n m : Int) : wrapInt (wrapInt n + m) = wrapInt (n + m) := by
  simp [wrapInt]

theorem emod_succ {n : Int} (hn : 1 ≤ n) (a : Int) :
    (a + 1) % n = if a % n + 1 = n then 0 else a % n + 1 := by
  have hlt := Int.emod_lt_of_pos a (by omega : 0 < n)
  have hnonneg := Int.emod_nonneg a (by omega : n ≠ 0)
  rw [← Int.emod_add_emod]
  split
  · rename_i heq
    rw [heq, Int.emod_self]
  · apply Int.emod_eq_of_lt
    · omega
    · omega

/-- The turn comes back to one when as many executions as a multiple of `n` came before. -/
theorem emod_succ_eq_one_iff {n : Int} (hn : 1 ≤ n) (a : Int) :
    (a + 1) % n = 1 % n ↔ a % n = 0 := by
  have hlt := Int.emod_lt_of_pos a (by omega : 0 < n)
  have hnonneg := Int.emod_nonneg a (by omega : n ≠ 0)
  by_cases hone : n = 1
  · simp [hone]
  · rw [emod_succ hn, Int.emod_eq_of_lt (by omega) (by omega : 1 < n)]
    split
    · omega
    · omega

/-- The counter of the first form, one turn further. -/
theorem everyN_turn {n : Int} (hn : 1 ≤ n) (done : List Bool) :
    let modN := if done = [] then 0 else ((done.length : Int) - 1) % n + 1
    0 ≤ modN ∧ modN ≤ n ∧
      (if modN + 1 > n then modN + 1 - n else modN + 1) = (done.length : Int) % n + 1 := by
  intro modN
  by_cases hdone : done = []
  · simp [modN, hdone]
    omega
  · have hlt := Int.emod_lt_of_pos ((done.length : Int) - 1) (by omega : 0 < n)
    have hnonneg := Int.emod_nonneg ((done.length : Int) - 1) (by omega : n ≠ 0)
    have hsucc := emod_succ hn ((done.length : Int) - 1)
    rw [Int.sub_add_cancel] at hsucc
    simp only [modN, if_neg hdone]
    refine ⟨by omega, by omega, ?_⟩
    rw [hsucc]
    split <;> split <;> omega

namespace LogState

theorem isSome_gate (level : LEVELS) (capture : LogCapture) (σ : LogState) :
    (σ.gate level capture).2.isSome = decide (σ.Enabled level) := by
  have hlevel := LevelTable.logLevel_fst level σ.g_log_levels
  by_cases henabled : (σ.g_log_levels.logLevel level).1 = true
  · simp [gate, henabled, Enabled, hlevel.mp henabled]
  · have hnot : ¬ σ.Enabled level := fun h => henabled (hlevel.mpr h)
    simp [gate, henabled, hnot]

/-- What a statement comes to that counts, and then asks if it is due. -/
theorem count_gate_if (site : Site) (k : Counters) (level : LEVELS) (capture : LogCapture)
    (p : Prop) [Decidable p] (σ : LogState) :
    let result := if p then (σ.count site k).gate level capture else (σ.count site k, none)
    result.1.counters = Function.update σ.counters site k ∧
      (σ.Enabled level → result.2.isSome = decide p) := by
  intro result
  by_cases hp : p
  · simp only [result, if_pos hp]
    refine ⟨rfl, ?_⟩
    intro henabled
    rw [isSome_gate, decide_eq_true hp, decide_eq_true_eq]
    exact henabled
  · simp only [result, if_neg hp]
    exact ⟨rfl, fun _ => by simp [hp]⟩

end LogState

theorem length_concat_cast (done : List Bool) (condition : Bool) :
    ((done ++ [condition]).length : Int) = (done.length : Int) + 1 := by
  simp

section
variable {n : Int} {done : List Bool} {site : Site} {σ : LogState}

theorem execute_everyN (hpos : 1 ≤ n) (hlt : n < INT_MAX)
    (h : Form.everyN.Holds n done (σ.counters site)) (stackdump : String) (level : LEVELS)
    (condition : Bool) (text : List Char) :
    ∃ r, (Statement.GLOG_LOG_EVERY_N level n text).execute site stackdump σ = some r ∧
      (∃ k, r.1.counters = Function.update σ.counters site k ∧
        Form.everyN.Holds n (done ++ [condition]) k) ∧
      (σ.Enabled level → r.2.isSome = Form.everyN.due n done condition) := by
  have hmax : (INT_MAX : Int) = 2147483647 := rfl
  obtain ⟨hocc, hmod⟩ := h
  obtain ⟨hnonneg, hle, hturn⟩ := everyN_turn hpos done
  rw [← hmod] at hnonneg hle hturn
  have hnext : wrapInt ((σ.counters site).LOG_OCCURRENCES_MOD_N + 1) =
      (σ.counters site).LOG_OCCURRENCES_MOD_N + 1 := wrapInt_of_le (by omega) (by omega)
  have hmodN : (if (σ.counters site).LOG_OCCURRENCES_MOD_N + 1 > n then
      wrapInt ((σ.counters site).LOG_OCCURRENCES_MOD_N + 1 - n)
      else (σ.counters site).LOG_OCCURRENCES_MOD_N + 1) = (done.length : Int) % n + 1 := by
    rw [← hturn]
    split
    · exact wrapInt_of_le (by omega) (by omega)
    · rfl
  have hgate := LogState.count_gate_if site
    ⟨wrapInt ((σ.counters site).LOG_OCCURRENCES + 1), (done.length : Int) % n + 1⟩ level
    ((INTERNAL_LOG_MESSAGE site stackdump level).stream text) ((done.length : Int) % n + 1 = 1) σ
  refine ⟨_, ?_, ⟨_, hgate.1, ?_, ?_⟩, ?_⟩
  · simp only [Statement.execute, hnext, hmodN]
  · rw [hocc, wrapInt_wrapInt_add, length_concat_cast]
  · simp
  · intro henabled
    rw [hgate.2 henabled, Form.due]
    apply decide_eq_decide.mpr
    omega

theorem execute_ifEveryN (hpos : 1 ≤ n) (hlt : n < INT_MAX)
    (h : Form.ifEveryN.Holds n done (σ.counters site)) (stackdump : String) (level : LEVELS)
    (condition : Bool) (text : List Char) :
    ∃ r, (Statement.GLOG_LOG_IF_EVERY_N level condition n text).execute site stackdump σ =
        some r ∧
      (∃ k, r.1.counters = Function.update σ.counters site k ∧
        Form.ifEveryN.Holds n (done ++ [condition]) k) ∧
      r.2.isSome = Form.ifEveryN.due n done condition := by
  have hmax : (INT_MAX : Int) = 2147483647 := rfl
  obtain ⟨hocc, hmod⟩ := h
  have hmodlt := Int.emod_lt_of_pos (done.count true : Int) (by omega : 0 < n)
  have hmodnonneg := Int.emod_nonneg (done.count true : Int) (by omega : n ≠ 0)
  rw [← hmod] at hmodlt hmodnonneg
  have hoccs : wrapInt ((σ.counters site).LOG_OCCURRENCES + 1) =
      wrapInt ((done ++ [condition]).length : Int) := by
    rw [hocc, wrapInt_wrapInt_add, length_concat_cast]
  cases condition with
  | false =>
      refine ⟨(σ.count site ⟨wrapInt ((σ.counters site).LOG_OCCURRENCES + 1),
        (σ.counters site).LOG_OCCURRENCES_MOD_N⟩, none), rfl, ⟨_, rfl, hoccs, ?_⟩, rfl⟩
      · simpa using hmod
  | true =>
      have hnext : (wrapInt ((σ.counters site).LOG_OCCURRENCES_MOD_N + 1)).tmod n =
          ((done.count true : Int) + 1) % n := by
        rw [wrapInt_of_le (by omega) (by omega), Int.tmod_eq_emod_of_nonneg (by omega), hmod,
          Int.emod_add_emod]
      have hone : Int.tmod 1 n = 1 % n := Int.tmod_eq_emod_of_nonneg (by omega)
      have hexec : (Statement.GLOG_LOG_IF_EVERY_N level true n text).execute site stackdump σ =
          some (σ.count site ⟨wrapInt ((σ.counters site).LOG_OCCURRENCES + 1),
              ((done.count true : Int) + 1) % n⟩,
            if (done.count true : Int) % n = 0 then
              some ((INTERNAL_LOG_MESSAGE site stackdump level).stream text)
            else none) := by
        simp only [Statement.execute, Bool.true_eq_false, if_false, if_neg (by omega : ¬ n = 0),
          hnext, hone, emod_succ_eq_one_iff hpos]
      refine ⟨_, hexec, ⟨_, rfl, hoccs, ?_⟩, ?_⟩
      · simp
      · by_cases hdue : (done.count true : Int) % n = 0
        · simp [Form.due, hdue]
        · simp [Form.due, hdue]

theorem execute_firstN (hlt : n < INT_MAX)
    (h : Form.firstN.Holds n done (σ.counters site)) (stackdump : String) (level : LEVELS)
    (condition : Bool) (text : List Char) :
    ∃ r, (Statement.LOG_FIRST_N level n text).execute site stackdump σ = some r ∧
      (∃ k, r.1.counters = Function.update σ.counters site k ∧
        Form.firstN.Holds n (done ++ [condition]) k) ∧
      (σ.Enabled level → r.2.isSome = Form.firstN.due n done condition) := by
  have hmax : (INT_MAX : Int) = 2147483647 := rfl
  rw [Form.Holds] at h
  have hoccs : (if (σ.counters site).LOG_OCCURRENCES ≤ n then
      wrapInt ((σ.counters site).LOG_OCCURRENCES + 1)
      else (σ.counters site).LOG_OCCURRENCES) = min ((done.length : Int) + 1) (n + 1) := by
    split
    · rw [wrapInt_of_le (by omega) (by omega)]
      omega
    · omega
  have hgate := LogState.count_gate_if site
    { σ.counters site with LOG_OCCURRENCES := min ((done.length : Int) + 1) (n + 1) } level
    ((INTERNAL_LOG_MESSAGE site stackdump level).stream text)
    (min ((done.length : Int) + 1) (n + 1) ≤ n) σ
  refine ⟨_, ?_, ⟨_, hgate.1, ?_⟩, ?_⟩
  · simp only [Statement.execute, hoccs]
  · simp only [Form.Holds, length_concat_cast]
  · intro henabled
    rw [hgate.2 henabled, Form.due]
    apply decide_eq_decide.mpr
    omega

/-- A sampling statement keeps its counters in step with its executions, and logs when it is
due if its level is enabled. -/
theorem Sampling.execute (s : Sampling) (h : s.form.Holds s.n done (σ.counters site))
    (stackdump : String) (condition : Bool) (text : List Char) :
    ∃ r, (s.statement condition text).execute site stackdump σ = some r ∧
      (∃ k, r.1.counters = Function.update σ.counters site k ∧
        s.form.Holds s.n (done ++ [condition]) k) ∧
      (σ.Enabled s.level → r.2.isSome = s.form.due s.n done condition) := by
  rw [Sampling.statement]
  cases hform : s.form with
  | everyN =>
      rw [hform] at h
      exact execute_everyN s.pos s.lt h stackdump s.level condition text
  | ifEveryN =>
      rw [hform] at h
      obtain ⟨r, hr, hk, hdue⟩ :=
        execute_ifEveryN s.pos s.lt h stackdump s.level condition text
      exact ⟨r, hr, hk, fun _ => hdue⟩
  | firstN =>
      rw [hform] at h
      exact execute_firstN s.lt h stackdump s.level condition text

end

/-! ## Runs -/

/-- What is left of the counters at every place, for the executions so far. -/
def AllHold (program : Site → Sampling) (done : Site → List Bool) (σ : LogState) : Prop :=
  ∀ site, (program site).form.Holds (program site).n (done site) (σ.counters site)

/-- A statement that does not count leaves every counter alone. -/
theorem counters_of_not_sampled {statement : Statement} (h : statement.sampled = none)
    (site : Site) (stackdump : String) (σ : LogState) :
    ∃ r, statement.execute site stackdump σ = some r ∧ r.1.counters = σ.counters := by
  cases statement with
  | GLOG_LOG_EVERY_N | GLOG_LOG_IF_EVERY_N | LOG_FIRST_N => cases h
  | GLOG_LOG level text => exact ⟨_, rfl, rfl⟩
  | GLOG_LOGF level printf_like_message expansion => exact ⟨_, rfl, rfl⟩
  | GLOG_LOG_IF level b text | GLOG_VLOG verboselevel text
  | GLOG_LOGF_IF level b printf_like_message expansion =>
      refine ⟨_, rfl, ?_⟩
      simp only [logIf]
      split <;> rfl

section
variable {program : Site → Sampling} {done : Site → List Bool} {σ : LogState}
  {a : LogAction} {actions : List LogAction}

/-- One action of a run, seen from every place. -/
theorem AllHold.step (h : AllHold program done σ) (hfollows : Follows program [a]) :
    ∃ σ' out, σ.step a = some (σ', out) ∧
      AllHold program (fun site => done site ++ conditions site [a]) σ' ∧
      ∀ site condition, a.sampledAt site = some condition →
        σ.Enabled (program site).level →
          out.isSome = (program site).form.due (program site).n (done site) condition := by
  have hchange : (∀ site, a.sampledAt site = none) → ∀ σ' out, σ.step a = some (σ', out) →
      σ'.counters = σ.counters → ∃ σ' out, σ.step a = some (σ', out) ∧
      AllHold program (fun site => done site ++ conditions site [a]) σ' ∧
      ∀ site condition, a.sampledAt site = some condition →
        σ.Enabled (program site).level →
          out.isSome = (program site).form.due (program site).n (done site) condition := by
    intro hnone σ' out hstep hcounters
    refine ⟨σ', out, hstep, ?_, ?_⟩
    · intro site
      simpa [conditions, hnone, hcounters] using h site
    · intro site condition hsome
      rw [hnone site] at hsome
      cases hsome
  cases a with
  | change op => exact hchange (fun _ => rfl) _ _ rfl rfl
  | setFLAGS_v v => exact hchange (fun _ => rfl) _ _ rfl rfl
  | setMaxMessageSize max_size => exact hchange (fun _ => rfl) _ _ rfl rfl
  | log site stackdump statement =>
      cases hsampled : statement.sampled with
      | none =>
          obtain ⟨r, hr, hcounters⟩ := counters_of_not_sampled hsampled site stackdump σ
          refine hchange ?_ r.1 r.2 hr hcounters
          intro site'
          simp [LogAction.sampledAt, hsampled]
      | some condition =>
          obtain ⟨text, rfl⟩ := hfollows site stackdump statement (by simp) condition hsampled
          obtain ⟨r, hr, ⟨k, hcounters, hk⟩, hdue⟩ :=
            (program site).execute (h site) stackdump condition text
          refine ⟨r.1, r.2, hr, ?_, ?_⟩
          · intro site'
            by_cases hsite : site' = site
            · subst hsite
              simpa [conditions, LogAction.sampledAt, hsampled, hcounters] using hk
            · simpa [conditions, LogAction.sampledAt, Ne.symm hsite, hcounters,
                Function.update_of_ne hsite] using h site'
          · intro site' condition' hsome henabled
            simp only [LogAction.sampledAt, Option.ite_none_right_eq_some] at hsome
            obtain ⟨rfl, hcondition⟩ := hsome
            obtain rfl : condition = condition' := Option.some.inj (hsampled.symm.trans hcondition)
            exact hdue henabled

theorem Follows.head (h : Follows program (a :: actions)) : Follows program [a] := by
  intro site stackdump statement hmem
  rw [List.mem_singleton] at hmem
  exact h site stackdump statement (by simp [hmem])

theorem Follows.tail (h : Follows program (a :: actions)) : Follows program actions := by
  intro site stackdump statement hmem
  exact h site stackdump statement (by simp [hmem])

/-- The executions at a place log exactly when they are due. -/
theorem AllHold.decisions (h : AllHold program done σ) (hfollows : Follows program actions)
    {site : Site} (henabled : σ.Always (LogState.EnabledAt program site) actions) {k : ℕ}
    {condition : Bool} (hk : (conditions site actions)[k]? = some condition) :
    (σ.decisions site actions)[k]? = some ((program site).form.due (program site).n
      (done site ++ (conditions site actions).take k) condition) := by
  induction actions generalizing done σ k with
  | nil => simp [conditions] at hk
  | cons a actions ih =>
      obtain ⟨σ', out, hstep, h', hdue⟩ := h.step hfollows.head
      have hrest (j : ℕ) := ih h' hfollows.tail (henabled.2 σ' out hstep) (k := j)
      cases hsampled : a.sampledAt site with
      | none =>
          have hconditions : conditions site (a :: actions) = conditions site actions := by
            simp [conditions, hsampled]
          have hdone : done site ++ conditions site [a] = done site := by
            simp [conditions, hsampled]
          rw [hconditions] at hk ⊢
          simpa [LogState.decisions, hstep, hsampled, hdone] using hrest k hk
      | some c =>
          have hconditions : conditions site (a :: actions) = c :: conditions site actions := by
            simp [conditions, hsampled]
          have hdone : done site ++ conditions site [a] = done site ++ [c] := by
            simp [conditions, hsampled]
          have hdecisions : σ.decisions site (a :: actions) =
              out.isSome :: σ'.decisions site actions := by
            simp [LogState.decisions, hstep, hsampled]
          rw [hconditions] at hk ⊢
          rw [hdecisions]
          cases k with
          | zero =>
              obtain rfl : c = condition := by simpa using hk
              have hout := hdue site c hsampled (henabled.1 (by simp [hsampled]))
              simpa using hout
          | succ k =>
              rw [List.getElem?_cons_succ] at hk ⊢
              simpa [hdone] using hrest k hk

end

/-- A counter for every place, none of which has been used. -/
theorem allHold_zero (program : Site → Sampling) {σ : LogState}
    (hσ : ∀ site, σ.counters site = ⟨0, 0⟩) : AllHold program (fun _ => []) σ := by
  intro site
  rw [hσ site]
  exact Form.holds_zero (program site).pos _

theorem count_of_forall {l : List Bool} (h : ∀ c ∈ l, c = true) : l.count true = l.length := by
  rw [List.count_eq_length]
  intro c hc
  exact (h c hc).symm

/-- In every run in which a place's level stays enabled, its executions log when they are due:
every `n`-th of them, every `n`-th of those whose condition holds, or the first `n`. Where every
condition holds, the first two forms agree. -/
theorem sampled_when_due (program : Site → Sampling) (σ : LogState)
    (hσ : ∀ site, σ.counters site = ⟨0, 0⟩) (actions : List LogAction)
    (hfollows : Follows program actions) :
    (∀ site, σ.Always (LogState.EnabledAt program site) actions →
      ∀ (k : ℕ) condition, (conditions site actions)[k]? = some condition →
        (σ.decisions site actions)[k]? = some ((program site).form.due (program site).n
          ((conditions site actions).take k) condition)) ∧
    ∀ site site', (program site).form = .everyN → (program site').form = .ifEveryN →
      (program site).n = (program site').n → (∀ c ∈ conditions site' actions, c = true) →
      σ.Always (LogState.EnabledAt program site) actions →
      σ.Always (LogState.EnabledAt program site') actions →
      ∀ k < (conditions site actions).length, k < (conditions site' actions).length →
        (σ.decisions site actions)[k]? = (σ.decisions site' actions)[k]? := by
  have hhold := allHold_zero program hσ
  refine ⟨?_, ?_⟩
  · intro site henabled k condition hk
    exact hhold.decisions hfollows henabled hk
  · intro site site' hform hform' hn htrue henabled henabled' k hk hk'
    have hleft := hhold.decisions hfollows henabled (List.getElem?_eq_getElem hk)
    have hright := hhold.decisions hfollows henabled' (List.getElem?_eq_getElem hk')
    have hcount : ((conditions site' actions).take k).count true = k := by
      rw [count_of_forall fun c hc => htrue c (List.mem_of_mem_take hc), List.length_take]
      omega
    have hcondition := htrue _ (List.getElem_mem hk')
    have hlength : ((conditions site actions).take k).length = k := by
      rw [List.length_take]
      omega
    rw [hleft, hright, hform, hform', hn, hcondition]
    simp [Form.due, hcount, hlength]

/-- A program whose only sampling statement logs every other time. -/
def everyOther : Sampling := ⟨.everyN, G3LOG_INFO, 2, by decide, by decide⟩

def tickSite : Site := ⟨"main.cpp", 7, "main"⟩

def tick : LogAction := .log tickSite "" (.GLOG_LOG_EVERY_N G3LOG_INFO 2 "tick".toList)

theorem follows_tick {actions : List LogAction} (h : ∀ a ∈ actions, a = tick) :
    Follows (fun _ => everyOther) actions := by
  intro site stackdump statement hmem condition _
  have heq := h _ hmem
  injection heq with _ _ hstatement
  exact ⟨"tick".toList, hstatement⟩

/-- One that logs every other time its condition holds. -/
def everyOtherIf : Sampling := ⟨.ifEveryN, G3LOG_INFO, 2, by decide, by decide⟩

def knockSite : Site := ⟨"main.cpp", 8, "main"⟩

def knock (condition : Bool) : LogAction :=
  .log knockSite "" (.GLOG_LOG_IF_EVERY_N G3LOG_INFO condition 2 "knock".toList)

def echoSite : Site := ⟨"main.cpp", 9, "main"⟩

def echo : LogAction :=
  .log echoSite "" (.GLOG_LOG_IF_EVERY_N G3LOG_INFO true 2 "echo".toList)

/-- One that logs twice. -/
def firstTwo : Sampling := ⟨.firstN, G3LOG_INFO, 2, by decide, by decide⟩

def chimeSite : Site := ⟨"main.cpp", 10, "main"⟩

def chime : LogAction := .log chimeSite "" (.LOG_FIRST_N G3LOG_INFO 2 "chime".toList)

/-- A program with statements of every form. -/
def clock (site : Site) : Sampling :=
  if site = chimeSite then firstTwo
  else if site = knockSite ∨ site = echoSite then everyOtherIf
  else everyOther

def hours : List LogAction :=
  [tick, knock false, chime, echo, knock true, tick, chime, knock false, echo, knock true,
    chime, tick, echo, knock true]

theorem follows_hours : Follows clock hours := by
  have hkinds : ∀ a ∈ hours, a = tick ∨ (∃ condition, a = knock condition) ∨ a = echo ∨
      a = chime := by
    simp [hours]
  intro site stackdump statement hmem condition hsampled
  rcases hkinds _ hmem with h | ⟨condition', h⟩ | h | h
  · injection h with hsite _ hstatement
    subst hsite hstatement
    exact ⟨"tick".toList, rfl⟩
  · injection h with hsite _ hstatement
    subst hsite hstatement
    obtain rfl : condition' = condition := Option.some.inj hsampled
    exact ⟨"knock".toList, rfl⟩
  · injection h with hsite _ hstatement
    subst hsite hstatement
    obtain rfl : true = condition := Option.some.inj hsampled
    exact ⟨"echo".toList, rfl⟩
  · injection h with hsite _ hstatement
    subst hsite hstatement
    exact ⟨"chime".toList, rfl⟩

/-- The third tick logs, the second knock that counts does not and the third does, and the
third chime does not. The echo goes with the tick. -/
theorem sampled_when_due_tick :
    (LogState.start.decisions tickSite hours)[1]? = some false ∧
      (LogState.start.decisions tickSite hours)[2]? = some true ∧
      (LogState.start.decisions knockSite hours)[3]? = some false ∧
      (LogState.start.decisions knockSite hours)[4]? = some true ∧
      (LogState.start.decisions chimeSite hours)[1]? = some true ∧
      (LogState.start.decisions chimeSite hours)[2]? = some false ∧
      ∀ k < 3, (LogState.start.decisions tickSite hours)[k]? =
        (LogState.start.decisions echoSite hours)[k]? := by
  obtain ⟨hdue, hagree⟩ := sampled_when_due clock .start (fun _ => rfl) hours follows_hours
  have htick : LogState.start.Always (LogState.EnabledAt clock tickSite) hours := by
    decide +kernel
  have hknock : LogState.start.Always (LogState.EnabledAt clock knockSite) hours := by
    decide +kernel
  have hecho : LogState.start.Always (LogState.EnabledAt clock echoSite) hours := by
    decide +kernel
  have hchime : LogState.start.Always (LogState.EnabledAt clock chimeSite) hours := by
    decide +kernel
  refine ⟨hdue tickSite htick 1 true rfl, hdue tickSite htick 2 true rfl,
    hdue knockSite hknock 3 true rfl, hdue knockSite hknock 4 true rfl,
    hdue chimeSite hchime 1 true rfl, hdue chimeSite hchime 2 true rfl, ?_⟩
  intro k hk
  exact hagree tickSite echoSite rfl rfl rfl (by decide +kernel) htick hecho k hk hk

/-! ## The range of the counters -/

/-- The results of the increments and subtractions on the counters in an execution. -/
def Statement.sums (k : Counters) : Statement → List Int
  | .GLOG_LOG_EVERY_N _ n _ =>
      let next := k.LOG_OCCURRENCES_MOD_N + 1
      [k.LOG_OCCURRENCES + 1, next] ++ if next > n then [next - n] else []
  | .GLOG_LOG_IF_EVERY_N _ condition _ _ =>
      (k.LOG_OCCURRENCES + 1) :: if condition then [k.LOG_OCCURRENCES_MOD_N + 1] else []
  | .LOG_FIRST_N _ n _ => if k.LOG_OCCURRENCES ≤ n then [k.LOG_OCCURRENCES + 1] else []
  | _ => []

/-- A value of type `int`. -/
def InInt (x : Int) : Prop := -INT_MAX - 1 ≤ x ∧ x ≤ INT_MAX

/-- No counter leaves its range. -/
def LogState.InRange (σ : LogState) : LogAction → Prop
  | .log site _ statement => ∀ x ∈ statement.sums (σ.counters site), InInt x
  | _ => True

theorem sums_of_not_sampled {statement : Statement} (h : statement.sampled = none)
    (k : Counters) : statement.sums k = [] := by
  cases statement with
  | GLOG_LOG_EVERY_N | GLOG_LOG_IF_EVERY_N | LOG_FIRST_N => cases h
  | GLOG_LOG | GLOG_LOGF | GLOG_LOG_IF | GLOG_VLOG | GLOG_LOGF_IF => rfl

/-- Only the counter that counts every execution can leave its range. -/
theorem Sampling.inInt_iff (s : Sampling) {done : List Bool} {k : Counters}
    (h : s.form.Holds s.n done k) (hdone : s.form ≠ .firstN → done.length ≤ INT_MAX)
    (condition : Bool) (text : List Char) :
    (∀ x ∈ (s.statement condition text).sums k, InInt x) ↔
      (s.form ≠ .firstN → done.length + 1 ≤ INT_MAX) := by
  have hmax : (INT_MAX : Int) = 2147483647 := rfl
  have hpos := s.pos
  have hlt := s.lt
  rw [Sampling.statement]
  cases hform : s.form with
  | everyN =>
      rw [hform] at h
      have hle : done.length ≤ INT_MAX := hdone (by simp [hform])
      obtain ⟨hocc, hmod⟩ := h
      obtain ⟨hnonneg, hmodle, -⟩ := everyN_turn hpos done
      rw [← hmod] at hnonneg hmodle
      rw [wrapInt_of_le (by omega) (by omega)] at hocc
      constructor
      · intro hall _
        have hfirst := hall (k.LOG_OCCURRENCES + 1) (by simp [Statement.sums])
        rw [InInt] at hfirst
        omega
      · intro hnext x hx
        have hnext := hnext (by simp)
        simp only [Statement.sums, List.mem_append, List.mem_cons, List.not_mem_nil,
          or_false] at hx
        rw [InInt]
        split at hx
        · simp only [List.mem_singleton] at hx
          omega
        · simp only [List.not_mem_nil, or_false] at hx
          omega
  | ifEveryN =>
      rw [hform] at h
      have hle : done.length ≤ INT_MAX := hdone (by simp [hform])
      obtain ⟨hocc, hmod⟩ := h
      have hmodlt := Int.emod_lt_of_pos (done.count true : Int) (by omega : 0 < s.n)
      have hnonneg := Int.emod_nonneg (done.count true : Int) (by omega : s.n ≠ 0)
      rw [← hmod] at hmodlt hnonneg
      rw [wrapInt_of_le (by omega) (by omega)] at hocc
      constructor
      · intro hall _
        have hfirst := hall (k.LOG_OCCURRENCES + 1) (by simp [Statement.sums])
        rw [InInt] at hfirst
        omega
      · intro hnext x hx
        have hnext := hnext (by simp)
        simp only [Statement.sums, List.mem_cons] at hx
        rw [InInt]
        split at hx
        · simp only [List.mem_singleton] at hx
          omega
        · simp only [List.not_mem_nil, or_false] at hx
          omega
  | firstN =>
      rw [hform, Form.Holds] at h
      constructor
      · intro _ hne
        exact absurd rfl hne
      · intro _ x hx
        simp only [Statement.sums] at hx
        rw [InInt]
        split at hx
        · simp only [List.mem_singleton] at hx
          omega
        · cases hx

section
variable {program : Site → Sampling} {done : Site → List Bool} {σ : LogState}
  {actions : List LogAction}

/-- The executions of the two forms with a counter of all of them fit into an `int`. -/
def Bounded (program : Site → Sampling) (done : Site → List Bool) : Prop :=
  ∀ site, (program site).form ≠ .firstN → (done site).length ≤ INT_MAX

theorem AllHold.inRange_iff (h : AllHold program done σ) (hdone : Bounded program done)
    {a : LogAction} (hfollows : Follows program [a]) :
    σ.InRange a ↔ Bounded program fun site => done site ++ conditions site [a] := by
  have hnone : (∀ site, a.sampledAt site = none) → σ.InRange a →
      (σ.InRange a ↔ Bounded program fun site => done site ++ conditions site [a]) := by
    intro hnone hrange
    simpa [conditions, hnone, hrange] using hdone
  cases a with
  | change op => exact hnone (fun _ => rfl) trivial
  | setFLAGS_v v => exact hnone (fun _ => rfl) trivial
  | setMaxMessageSize max_size => exact hnone (fun _ => rfl) trivial
  | log site stackdump statement =>
      cases hsampled : statement.sampled with
      | none =>
          refine hnone ?_ ?_
          · intro site'
            simp [LogAction.sampledAt, hsampled]
          · simp [LogState.InRange, sums_of_not_sampled hsampled]
      | some condition =>
          obtain ⟨text, rfl⟩ := hfollows site stackdump statement (by simp) condition hsampled
          rw [LogState.InRange, (program site).inInt_iff (h site) (hdone site)]
          constructor
          · intro hnext site' hform
            by_cases hsite : site' = site
            · subst hsite
              simpa [conditions, LogAction.sampledAt, hsampled] using hnext hform
            · simpa [conditions, LogAction.sampledAt, Ne.symm hsite] using hdone site' hform
          · intro hnext hform
            simpa [conditions, LogAction.sampledAt, hsampled] using hnext site hform

theorem AllHold.always_inRange_iff (h : AllHold program done σ) (hdone : Bounded program done)
    (hfollows : Follows program actions) :
    σ.Always LogState.InRange actions ↔
      Bounded program fun site => done site ++ conditions site actions := by
  induction actions generalizing done σ with
  | nil => simpa [LogState.Always, conditions] using hdone
  | cons a actions ih =>
      obtain ⟨σ', out, hstep, h', -⟩ := h.step hfollows.head
      have happend : (fun site => done site ++ conditions site (a :: actions)) =
          fun site => (done site ++ conditions site [a]) ++ conditions site actions := by
        ext site : 1
        rw [List.append_assoc, conditions, conditions, conditions, ← List.filterMap_append]
        rfl
      rw [LogState.Always, h.inRange_iff hdone hfollows.head, happend]
      constructor
      · intro hall
        exact (ih h' hall.1 hfollows.tail).mp (hall.2 σ' out hstep)
      · intro hbounded
        have hhead : Bounded program fun site => done site ++ conditions site [a] := by
          intro site hform
          have hle := hbounded site hform
          simp only [List.length_append] at hle ⊢
          omega
        refine ⟨hhead, ?_⟩
        intro σ'' out' hstep'
        rw [hstep] at hstep'
        obtain rfl : σ' = σ'' := congrArg Prod.fst (Option.some.inj hstep')
        exact (ih h' hhead hfollows.tail).mpr hbounded

end

/-- In a run, the counters stay in their range if and only if no place that counts all its
executions has more than `INT_MAX` of them. -/
theorem counters_inRange_iff (program : Site → Sampling) (σ : LogState)
    (hσ : ∀ site, σ.counters site = ⟨0, 0⟩) (actions : List LogAction)
    (hfollows : Follows program actions) :
    σ.Always LogState.InRange actions ↔
      ∀ site, (program site).form ≠ .firstN → (conditions site actions).length ≤ INT_MAX := by
  have hempty : Bounded program fun _ => [] := by
    intro site _
    simp
  simpa [Bounded] using (allHold_zero program hσ).always_inRange_iff hempty hfollows

theorem counters_inRange_iff_tick :
    LogState.start.Always LogState.InRange [tick, tick, tick] := by
  rw [counters_inRange_iff (fun _ => everyOther) .start (fun _ => rfl) [tick, tick, tick]
    (follows_tick (by simp))]
  intro site _
  calc (conditions site [tick, tick, tick]).length ≤ [tick, tick, tick].length :=
        List.length_filterMap_le _ _
    _ ≤ INT_MAX := by decide

/-- A statement in a loop that runs for long enough. -/
theorem counters_leave_range :
    ¬ ∀ (program : Site → Sampling) (actions : List LogAction), Follows program actions →
      LogState.start.Always LogState.InRange actions := by
  intro h
  have hfollows : Follows (fun _ => everyOther) (List.replicate (INT_MAX + 1) tick) :=
    follows_tick fun _ => List.eq_of_mem_replicate
  have hempty : Bounded (fun _ => everyOther) fun _ => [] := by
    intro site _
    simp
  have hbounded := ((allHold_zero _ fun _ => rfl).always_inRange_iff hempty hfollows).mp
    (h _ _ hfollows)
  have htick : tick.sampledAt tickSite = some true := by decide
  have hle : ([] ++ conditions tickSite (List.replicate (INT_MAX + 1) tick)).length ≤ INT_MAX :=
    hbounded tickSite (by decide)
  rw [List.nil_append, conditions, List.filterMap_replicate_of_some htick,
    List.length_replicate] at hle
  exact absurd hle (Nat.not_succ_le_self INT_MAX)

end G3log
