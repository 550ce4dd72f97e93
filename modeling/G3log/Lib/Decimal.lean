import Mathlib.Data.Nat.Digits.Defs
import Mathlib.Data.List.Infix

/-!
# Decimal digits of a fixed width

A number below `10 ^ k` written with `k` decimal digits, by zeros in front. Cutting a
number down by a power of ten cuts digits off the end.

## Main definitions

* `padded` -- the digits, filled up with zeros to a width.
* `padded_isPrefix` -- fewer digits of the same number are a prefix.
-/

namespace G3log.Decimal

/-- The decimal digits of a number, with zeros in front up to a width. -/
def padded (k n : ℕ) : List Char :=
  List.replicate (k - (Nat.toDigits 10 n).length) '0' ++ Nat.toDigits 10 n

theorem length_padded {k n : ℕ} (hk : 0 < k) (h : n < 10 ^ k) : (padded k n).length = k := by
  have hle := (Nat.length_toDigits_le_iff (b := 10) (by omega) hk).mpr h
  simp only [padded, List.length_append, List.length_replicate]
  omega

theorem isDigit_of_mem_padded {k n : ℕ} {c : Char} (hc : c ∈ padded k n) : c.isDigit = true := by
  rcases List.mem_append.mp hc with hc | hc
  · obtain ⟨-, rfl⟩ := List.mem_replicate.mp hc
    decide
  · exact Nat.isDigit_of_mem_toDigits (by omega) (by omega) hc

/-- The last digit comes off the end. -/
theorem padded_succ {k n : ℕ} (hk : 0 < k) :
    padded (k + 1) n = padded k (n / 10) ++ [(n % 10).digitChar] := by
  by_cases hn : n < 10
  · have hdiv : n / 10 = 0 := by omega
    have hmod : n % 10 = n := by omega
    have hzero : padded k 0 = List.replicate k '0' := by
      obtain ⟨j, rfl⟩ : ∃ j, k = j + 1 := ⟨k - 1, by omega⟩
      simp [padded, List.replicate_succ']
    rw [hdiv, hmod, hzero, padded, Nat.toDigits_of_lt_base hn]
    simp
  · have hdigits := Nat.toDigits_of_base_le (b := 10) (n := n) (by omega) (by omega)
    rw [padded, padded, hdigits, ← List.append_assoc]
    simp

/-- Fewer digits of the same number are the first ones. -/
theorem padded_isPrefix {k : ℕ} (hk : 0 < k) (j n : ℕ) :
    padded k (n / 10 ^ j) <+: padded (k + j) n := by
  induction j generalizing n with
  | zero => simp
  | succ j ih =>
      have hdiv : n / 10 ^ (j + 1) = n / 10 / 10 ^ j := by
        rw [Nat.pow_succ', Nat.div_div_eq_div_mul]
      have hlast : padded (k + (j + 1)) n = padded (k + j) (n / 10) ++ [(n % 10).digitChar] :=
        padded_succ (k := k + j) (by omega)
      rw [hdiv, hlast]
      exact (ih (n / 10)).trans (List.prefix_append _ _)

end G3log.Decimal
