import Mathlib.Data.List.Basic

/-!
# Runs with some of the inputs deleted

A machine has a next state and possibly an output for each input. Some inputs are hidden:
they have no output, and a run with them is compared with the run without. The two runs
have the same outputs if a relation between their states survives a hidden input on the one
side and any other input on both.

## Main definitions

* `Machine`, `Machine.outputs` -- a machine and what a run of it puts out.
* `Machine.Kept` -- each input meets a condition on the states of the two runs before it.
* `Machine.outputs_purge` -- the rule.
-/

namespace G3log.Purge

variable {σ ι ο : Type}

structure Machine (σ ι ο : Type) where
  next : σ → ι → σ
  out : σ → ι → Option ο
  hidden : ι → Bool
  out_hidden : ∀ s a, hidden a = true → out s a = none

namespace Machine
variable (M : Machine σ ι ο)

/-- The outputs of a run, in order. -/
def outputs : σ → List ι → List ο
  | _, [] => []
  | s, a :: as => (M.out s a).toList ++ outputs (M.next s a) as

/-- The inputs that are left when the hidden ones are deleted. -/
def purge (as : List ι) : List ι := as.filter fun a => !M.hidden a

/-- Each input that is not hidden meets a condition on the state before it and on that of
the run without the hidden inputs. -/
def Kept (Ok : σ → σ → ι → Prop) : σ → σ → List ι → Prop
  | _, _, [] => True
  | s, t, a :: as =>
      if M.hidden a = true then Kept Ok (M.next s a) t as
      else Ok s t a ∧ Kept Ok (M.next s a) (M.next t a) as

variable {M} {Ok : σ → σ → ι → Prop} {R : σ → σ → Prop}

/-- A relation that the inputs keep makes the outputs of the two runs equal. -/
theorem outputs_purge
    (hhidden : ∀ s t a, M.hidden a = true → R s t → R (M.next s a) t)
    (hnext : ∀ s t a, M.hidden a = false → Ok s t a → R s t → R (M.next s a) (M.next t a))
    (hout : ∀ s t a, M.hidden a = false → Ok s t a → R s t → M.out s a = M.out t a)
    {s t : σ} {as : List ι} (hR : R s t) (hkept : M.Kept Ok s t as) :
    M.outputs s as = M.outputs t (M.purge as) := by
  induction as generalizing s t with
  | nil => rfl
  | cons a as ih =>
      rw [Kept] at hkept
      cases ha : M.hidden a with
      | true =>
          rw [if_pos ha] at hkept
          have hrest := ih (hhidden s t a ha hR) hkept
          rw [outputs, M.out_hidden s a ha, hrest]
          simp [purge, ha]
      | false =>
          rw [ha, if_neg Bool.false_ne_true] at hkept
          have hrest := ih (hnext s t a ha hkept.1 hR) hkept.2
          rw [outputs, hout s t a ha hkept.1 hR, hrest]
          simp [purge, ha, outputs]

end Machine
end G3log.Purge
