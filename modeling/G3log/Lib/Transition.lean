import Mathlib.Data.List.Basic

/-!
# Transition systems with a computable step

A system has states it may start in and a partial step function: the action says who
moves and how, and the step is undefined where the action is not enabled. Runs may be
restricted to steps that meet a condition, which is how a theorem speaks of the runs
that stay out of some situation.

## Main definitions

* `System`, `System.ReachableBy` -- the states reached by steps that meet a condition.
* `System.runBy` -- a run that checks the condition as it goes, for concrete runs.
* `System.Visits` -- a run with the states on the way.
* `System.Execution` -- an infinite run, with stuttering, and its weak fairness.
* `System.Execution.eventually_of_measure` -- progress by a decreasing measure.
-/

namespace G3log.Transition

universe u v

/-- States to start in, and where an action leads from a state that enables it. -/
structure System (σ : Type u) (ι : Type v) where
  Start : σ → Prop
  step : σ → ι → Option σ

namespace System
variable {σ : Type u} {ι : Type v} (S : System σ ι)

/-- The states reached by steps that meet `Ok`, a condition on the state before the
step and the action. -/
inductive ReachableBy (Ok : σ → ι → Prop) : σ → Prop
  | start {s : σ} : S.Start s → ReachableBy Ok s
  | step {s s' : σ} {a : ι} :
      ReachableBy Ok s → Ok s a → S.step s a = some s' → ReachableBy Ok s'

/-- The states of all runs. -/
abbrev Reachable (s : σ) : Prop := S.ReachableBy (fun _ _ => True) s

/-- Some run leads from the one state to the other, by steps that meet `Ok`. -/
inductive LeadsBy (Ok : σ → ι → Prop) (s : σ) : σ → Prop
  | refl : LeadsBy Ok s s
  | step {s₁ s' : σ} {a : ι} :
      LeadsBy Ok s s₁ → Ok s₁ a → S.step s₁ a = some s' → LeadsBy Ok s s'

variable {S} {Ok Ok' : σ → ι → Prop} {s s' : σ}

/-- What holds at the start and is kept by each step holds in every state reached. -/
theorem ReachableBy.invariant {P : σ → Prop} (hstart : ∀ s, S.Start s → P s)
    (hstep : ∀ s a s', S.ReachableBy Ok s → Ok s a → P s → S.step s a = some s' → P s')
    (h : S.ReachableBy Ok s) : P s := by
  induction h with
  | start h => exact hstart _ h
  | step hr hok hs ih => exact hstep _ _ _ hr hok ih hs

theorem ReachableBy.mono (hle : ∀ s a, Ok s a → Ok' s a) (h : S.ReachableBy Ok s) :
    S.ReachableBy Ok' s := by
  induction h with
  | start h => exact .start h
  | step _ hok hs ih => exact .step ih (hle _ _ hok) hs

theorem ReachableBy.reachable (h : S.ReachableBy Ok s) : S.Reachable s :=
  h.mono fun _ _ _ => trivial

theorem ReachableBy.leads (h : S.ReachableBy Ok s) (hl : S.LeadsBy Ok s s') :
    S.ReachableBy Ok s' := by
  induction hl with
  | refl => exact h
  | step _ hok hs ih => exact .step ih hok hs

theorem LeadsBy.mono (hle : ∀ s a, Ok s a → Ok' s a) (h : S.LeadsBy Ok s s') :
    S.LeadsBy Ok' s s' := by
  induction h with
  | refl => exact .refl
  | step _ hok hs ih => exact .step ih (hle _ _ hok) hs

theorem LeadsBy.trans {s₁ s₂ s₃ : σ} (h : S.LeadsBy Ok s₁ s₂) (h' : S.LeadsBy Ok s₂ s₃) :
    S.LeadsBy Ok s₁ s₃ := by
  induction h' with
  | refl => exact h
  | step _ hok hs ih => exact .step ih hok hs

/-- A reflexive and transitive relation that each step keeps holds along every run. -/
theorem LeadsBy.related {r : σ → σ → Prop} (hrefl : ∀ s, r s s)
    (htrans : ∀ s₁ s₂ s₃, r s₁ s₂ → r s₂ s₃ → r s₁ s₃)
    (hstep : ∀ s₁ a s₂, Ok s₁ a → S.step s₁ a = some s₂ → r s₁ s₂)
    (h : S.LeadsBy Ok s s') : r s s' := by
  induction h with
  | refl => exact hrefl s
  | step _ hok hs ih => exact htrans _ _ _ ih (hstep _ _ _ hok hs)

/-- Refinement: a system whose steps show as steps of another one, or do not show, reaches
what the other one reaches. A condition on the steps that show goes with them. -/
theorem ReachableBy.refinesBy {τ : Type*} {κ : Type*} {T : System τ κ} {Ok' : τ → κ → Prop}
    {f : σ → τ} (hstart : ∀ s, S.Start s → T.Start (f s))
    (hstep : ∀ s a s', S.ReachableBy Ok s → Ok s a → S.step s a = some s' →
      f s' = f s ∨ ∃ b, Ok' (f s) b ∧ T.step (f s) b = some (f s'))
    (h : S.ReachableBy Ok s) : T.ReachableBy Ok' (f s) := by
  induction h with
  | start h => exact .start (hstart _ h)
  | step hr hok hs ih =>
      rcases hstep _ _ _ hr hok hs with heq | ⟨b, hok', hb⟩
      · rwa [heq]
      · exact .step ih hok' hb

theorem ReachableBy.refines {τ : Type*} {κ : Type*} {T : System τ κ} {f : σ → τ}
    (hstart : ∀ s, S.Start s → T.Start (f s))
    (hstep : ∀ s a s', S.ReachableBy Ok s → Ok s a → S.step s a = some s' →
      f s' = f s ∨ ∃ b, T.step (f s) b = some (f s'))
    (h : S.ReachableBy Ok s) : T.Reachable (f s) :=
  h.refinesBy hstart fun s a s' hr hok hs =>
    (hstep s a s' hr hok hs).imp_right fun ⟨b, hb⟩ => ⟨b, trivial, hb⟩

/-! ## Concrete runs -/

variable (S) in
/-- Take the actions one after the other, as long as each is enabled and meets `ok`. -/
def runBy (ok : σ → ι → Bool) : σ → List ι → Option σ
  | s, [] => some s
  | s, a :: as => if ok s a then (S.step s a).bind (runBy ok · as) else none

theorem reachableBy_of_runBy {ok : σ → ι → Bool} {as : List ι}
    (h : S.ReachableBy (fun s a => ok s a = true) s) (hrun : S.runBy ok s as = some s') :
    S.ReachableBy (fun s a => ok s a = true) s' := by
  induction as generalizing s with
  | nil => rwa [← Option.some.inj hrun]
  | cons a as ih =>
      simp only [runBy] at hrun
      split at hrun
      · obtain ⟨s₁, hs₁, hrun⟩ := Option.bind_eq_some_iff.mp hrun
        exact ih (.step h ‹_› hs₁) hrun
      · simp at hrun

theorem leadsBy_of_runBy {ok : σ → ι → Bool} {as : List ι} (hrun : S.runBy ok s as = some s') :
    S.LeadsBy (fun s a => ok s a = true) s s' := by
  suffices h : ∀ s₁, S.LeadsBy (fun s a => ok s a = true) s s₁ → S.runBy ok s₁ as = some s' →
      S.LeadsBy (fun s a => ok s a = true) s s' from h s .refl hrun
  clear hrun
  induction as with
  | nil =>
      intro s₁ h hrun
      rwa [← Option.some.inj hrun]
  | cons a as ih =>
      intro s₁ h hrun
      simp only [runBy] at hrun
      split at hrun
      · obtain ⟨s₂, hs₂, hrun⟩ := Option.bind_eq_some_iff.mp hrun
        exact ih s₂ (.step h ‹_› hs₂) hrun
      · simp at hrun

/-- A run that can be computed reaches a state with a property that can be computed. -/
theorem exists_reachableBy {ok : σ → ι → Bool} {as : List ι} {p : σ → Bool} (hs : S.Start s)
    (h : (S.runBy ok s as).any p = true) :
    ∃ s', S.ReachableBy (fun s a => ok s a = true) s' ∧ p s' = true := by
  obtain ⟨s', hs', hp⟩ := (Option.any_eq_true _ _).mp h
  exact ⟨s', reachableBy_of_runBy (.start hs) hs', hp⟩

/-- What the actions of `A` leave alone is the same after a run of them. -/
theorem eq_of_runBy {α : Type*} {f : σ → α} {A : ι → Prop} {ok : σ → ι → Bool} {as : List ι}
    (hstep : ∀ s a s', A a → S.step s a = some s' → f s' = f s) (has : ∀ a ∈ as, A a)
    (hrun : S.runBy ok s as = some s') : f s' = f s := by
  induction as generalizing s with
  | nil => rw [← Option.some.inj hrun]
  | cons a as ih =>
      simp only [runBy] at hrun
      split at hrun
      · obtain ⟨s₁, hs₁, hrun⟩ := Option.bind_eq_some_iff.mp hrun
        rw [ih (fun b hb => has b (List.mem_cons_of_mem _ hb)) hrun]
        exact hstep _ _ _ (has a List.mem_cons_self) hs₁
      · simp at hrun

/-- One step more. -/
theorem runBy_concat {ok : σ → ι → Bool} {as : List ι} {a : ι} {s'' : σ}
    (hrun : S.runBy ok s as = some s') (ha : ok s' a = true) (hs : S.step s' a = some s'') :
    S.runBy ok s (as ++ [a]) = some s'' := by
  induction as generalizing s with
  | nil =>
      obtain rfl : s = s' := Option.some.inj hrun
      simp [runBy, ha, hs]
  | cons b as ih =>
      simp only [runBy] at hrun
      split at hrun
      · next hb =>
          obtain ⟨s₁, hs₁, hrun⟩ := Option.bind_eq_some_iff.mp hrun
          simp only [List.cons_append, runBy, hb, if_true, hs₁, Option.bind_some]
          exact ih hrun
      · simp at hrun

/-- If every step takes something off the bound of a state, runs are no longer than that. -/
theorem length_le_of_bound {ok : σ → ι → Bool} {B : ℕ → σ → Prop}
    (hstep : ∀ k s a s', B k s → ok s a = true → S.step s a = some s' → ∃ k' < k, B k' s')
    {k : ℕ} {as : List ι} (hs : B k s) (hrun : S.runBy ok s as = some s') : as.length ≤ k := by
  induction as generalizing s k with
  | nil => exact Nat.zero_le _
  | cons a as ih =>
      simp only [runBy] at hrun
      split at hrun
      · next hok =>
          obtain ⟨s₁, hs₁, hrun⟩ := Option.bind_eq_some_iff.mp hrun
          obtain ⟨k', hlt, hB⟩ := hstep k s a s₁ hs hok hs₁
          have hle := ih hB hrun
          simp only [List.length_cons]
          omega
      · simp at hrun

/-! ## Runs with the states on the way -/

variable (S) in
/-- A run from the one state to the other, with the states that its steps leave. -/
inductive Visits : σ → List σ → σ → Prop
  | refl (s : σ) : Visits s [] s
  | step {s s₁ s' : σ} {a : ι} {visited : List σ} :
      S.step s a = some s₁ → Visits s₁ visited s' → Visits s (s :: visited) s'

theorem Visits.single {a : ι} (h : S.step s a = some s') : S.Visits s [s] s' :=
  .step h (.refl s')

theorem Visits.trans {s₁ : σ} {visited visited' : List σ} (h : S.Visits s visited s₁)
    (h' : S.Visits s₁ visited' s') : S.Visits s (visited ++ visited') s' := by
  induction h with
  | refl => exact h'
  | step hs _ ih => exact .step hs (ih h')

/-- A run to a state that has no next one is the only such run, when there is no choice
between actions. -/
theorem Visits.unique [Subsingleton ι] {s'' : σ} {visited visited' : List σ}
    (h : S.Visits s visited s') (hend : ∀ a, S.step s' a = none)
    (h' : S.Visits s visited' s'') (hend' : ∀ a, S.step s'' a = none) :
    visited = visited' ∧ s' = s'' := by
  induction h generalizing visited' with
  | refl s =>
      cases h' with
      | refl => exact ⟨rfl, rfl⟩
      | step hs _ =>
          rw [hend] at hs
          cases hs
  | @step s s₁ s' a visited hs _ ih =>
      cases h' with
      | refl =>
          rw [hend'] at hs
          cases hs
      | @step _ s₂ _ a' visited' hs' hrest' =>
          rw [Subsingleton.elim a' a, hs] at hs'
          obtain rfl := Option.some.inj hs'
          obtain ⟨rfl, rfl⟩ := ih hend hrest'
          exact ⟨rfl, rfl⟩

/-- What holds at the start and is kept by each step, of a run and the state it has come to. -/
theorem Visits.invariant {P : List σ → σ → Prop} {visited : List σ} (hstart : P [] s)
    (hstep : ∀ visited s₁ a s₂, P visited s₁ → S.step s₁ a = some s₂ → P (visited ++ [s₁]) s₂)
    (h : S.Visits s visited s') : P visited s' := by
  suffices hgen : ∀ pre, P pre s → P (pre ++ visited) s' from hgen [] hstart
  clear hstart
  induction h with
  | refl s =>
      intro pre hpre
      rwa [List.append_nil]
  | @step s s₁ s' a visited hs _ ih =>
      intro pre hpre
      have hnext := ih (pre ++ [s]) (hstep pre s a s₁ hpre hs)
      rwa [List.append_assoc, List.singleton_append] at hnext

variable (S) in
/-- Take the actions one after the other, with the states on the way. -/
def visit : σ → List ι → Option (List σ × σ)
  | s, [] => some ([], s)
  | s, a :: as => (S.step s a).bind fun s₁ => (visit s₁ as).map fun v => (s :: v.1, v.2)

theorem visits_of_visit {as : List ι} {visited : List σ}
    (h : S.visit s as = some (visited, s')) : S.Visits s visited s' := by
  induction as generalizing s visited with
  | nil =>
      obtain ⟨rfl, rfl⟩ := Prod.mk.inj (Option.some.inj h)
      exact .refl s
  | cons a as ih =>
      obtain ⟨s₁, hs₁, hrest⟩ := Option.bind_eq_some_iff.mp h
      obtain ⟨v, hv, heq⟩ := Option.map_eq_some_iff.mp hrest
      obtain ⟨rfl, rfl⟩ := Prod.mk.inj heq
      exact .step hs₁ (ih hv)

/-! ## Infinite runs -/

variable (S Ok) in
/-- A run without end. In a step without action nothing changes. -/
structure Execution where
  state : ℕ → σ
  action : ℕ → Option ι
  start : S.Start (state 0)
  stutter : ∀ n, action n = none → state (n + 1) = state n
  step : ∀ n a, action n = some a →
    Ok (state n) a ∧ S.step (state n) a = some (state (n + 1))

namespace Execution

/-- If from some time on the actions of `A` are enabled, one of them is taken. -/
def WeaklyFair (E : Execution S Ok) (A : ι → Prop) : Prop :=
  ∀ n, (∀ k, n ≤ k → ∃ a, A a ∧ (S.step (E.state k) a).isSome) →
    ∃ k, n ≤ k ∧ ∃ a, A a ∧ E.action k = some a

theorem reachableBy (E : Execution S Ok) (n : ℕ) : S.ReachableBy Ok (E.state n) := by
  induction n with
  | zero => exact .start E.start
  | succ n ih =>
      cases ha : E.action n with
      | none => rwa [E.stutter n ha]
      | some a => exact .step ih (E.step n a ha).1 (E.step n a ha).2

theorem leadsBy (E : Execution S Ok) {n k : ℕ} (h : n ≤ k) :
    S.LeadsBy Ok (E.state n) (E.state k) := by
  induction h with
  | refl => exact .refl
  | @step k _ ih =>
      cases ha : E.action k with
      | none => rwa [E.stutter k ha]
      | some a => exact .step ih (E.step k a ha).1 (E.step k a ha).2

/-- While `P` holds, every step keeps it and does not raise the measure, or reaches `Q`. -/
theorem keeps {E : Execution S Ok} {P Q : σ → Prop} {μ : σ → ℕ}
    (hkeep : ∀ s a s', Ok s a → P s → S.step s a = some s' → P s' ∧ μ s' ≤ μ s ∨ Q s')
    {n : ℕ} (hn : P (E.state n)) (hQ : ∀ k, n ≤ k → ¬ Q (E.state k)) (d : ℕ) :
    P (E.state (n + d)) ∧ μ (E.state (n + d)) ≤ μ (E.state n) := by
  induction d with
  | zero => exact ⟨hn, Nat.le_refl _⟩
  | succ d ih =>
      cases ha : E.action (n + d) with
      | none =>
          rw [← Nat.add_assoc, E.stutter _ ha]
          exact ih
      | some a =>
          obtain ⟨hok, hs⟩ := E.step _ a ha
          rcases hkeep _ a _ hok ih.1 hs with ⟨hP, hμ⟩ | hq
          · exact ⟨hP, Nat.le_trans hμ ih.2⟩
          · exact absurd hq (hQ _ (by omega))

/-- Progress: while `P` holds the fair actions are enabled and each of them lowers the
measure, and no other step raises it, so in the end `Q` holds. -/
theorem eventually_of_measure {E : Execution S Ok} {A : ι → Prop} (hfair : E.WeaklyFair A)
    {P Q : σ → Prop} (μ : σ → ℕ)
    (hkeep : ∀ s a s', Ok s a → P s → S.step s a = some s' → P s' ∧ μ s' ≤ μ s ∨ Q s')
    (hlower : ∀ s a s', Ok s a → P s → A a → S.step s a = some s' → μ s' < μ s ∨ Q s')
    (henabled : ∀ s, P s → ∃ a, A a ∧ (S.step s a).isSome)
    (n : ℕ) (hn : P (E.state n)) : ∃ k, n ≤ k ∧ Q (E.state k) := by
  by_contra hnever
  have hQ : ∀ k, n ≤ k → ¬ Q (E.state k) := fun k hk hq => hnever ⟨k, hk, hq⟩
  clear hnever
  induction hm : μ (E.state n) using Nat.strongRecOn generalizing n with
  | _ m ih =>
      have hP : ∀ k, n ≤ k → P (E.state k) ∧ μ (E.state k) ≤ μ (E.state n) := by
        intro k hk
        obtain ⟨d, rfl⟩ := Nat.exists_eq_add_of_le hk
        exact keeps hkeep hn hQ d
      obtain ⟨k, hk, a, hA, ha⟩ := hfair n fun k hk => henabled _ (hP k hk).1
      obtain ⟨hok, hs⟩ := E.step k a ha
      have hlt : μ (E.state (k + 1)) < μ (E.state k) :=
        (hlower _ a _ hok (hP k hk).1 hA hs).resolve_right (hQ _ (by omega))
      exact ih (μ (E.state (k + 1))) (by have := (hP k hk).2; omega) (k + 1)
        (hP (k + 1) (by omega)).1 (fun j hj => hQ j (by omega)) rfl

end Execution
end System
end G3log.Transition
