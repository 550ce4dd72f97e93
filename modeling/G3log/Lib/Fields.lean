import Mathlib.Data.List.Basic

/-!
# Texts with separators

A text is a list. A separator that one part of it does not hold tells where that part ends,
so texts that are joined by it come apart in one way only. The last place of a character is
what a scan from the left is left with.

## Main definitions

* `append_cons_inj_front`, `append_cons_inj_back` -- the parts before and behind a separator.
* `LastAt` -- the last place of a character, if there is one.
-/

namespace G3log.Fields

variable {α : Type*} {a c d : α} {text : List α}

/-- The front ends at the first separator. -/
theorem append_cons_inj_front {x₁ x₂ z₁ z₂ : List α} (h₁ : a ∉ x₁) (h₂ : a ∉ x₂) :
    x₁ ++ a :: z₁ = x₂ ++ a :: z₂ ↔ x₁ = x₂ ∧ z₁ = z₂ := by
  constructor
  · intro h
    induction x₁ generalizing x₂ with
    | nil =>
        cases x₂ with
        | nil => simpa using h
        | cons b x₂ =>
            rw [List.nil_append, List.cons_append, List.cons.injEq] at h
            simp [h.1] at h₂
    | cons b x₁ ih =>
        cases x₂ with
        | nil =>
            rw [List.nil_append, List.cons_append, List.cons.injEq] at h
            simp [h.1] at h₁
        | cons b' x₂ =>
            rw [List.cons_append, List.cons_append, List.cons.injEq] at h
            rw [List.mem_cons, not_or] at h₁ h₂
            have hrest := ih h₁.2 h₂.2 h.2
            exact ⟨by rw [h.1, hrest.1], hrest.2⟩
  · intro h
    rw [h.1, h.2]

/-- The back begins behind the last separator. -/
theorem append_cons_inj_back {x₁ x₂ z₁ z₂ : List α} (h₁ : a ∉ z₁) (h₂ : a ∉ z₂) :
    x₁ ++ a :: z₁ = x₂ ++ a :: z₂ ↔ x₁ = x₂ ∧ z₁ = z₂ := by
  have hreverse (x z : List α) : (x ++ a :: z).reverse = z.reverse ++ a :: x.reverse := by simp
  rw [← List.reverse_inj, hreverse, hreverse,
    append_cons_inj_front (by simpa using h₁) (by simpa using h₂), List.reverse_inj,
    List.reverse_inj, and_comm]

/-! ## The last place -/

/-- In a text that stands at `base`, a character stands at this place and not behind it, or
nowhere. -/
def LastAt (base : ℕ) (c : α) (text : List α) : Option ℕ → Prop
  | none => c ∉ text
  | some p => ∃ front back, text = front ++ c :: back ∧ p = base + front.length ∧ c ∉ back

variable {base : ℕ} {i j : Option ℕ}

theorem lastAt_nil (base : ℕ) (c : α) : LastAt base c [] none := by simp [LastAt]

theorem lastAt_concat (base : ℕ) (c : α) (text : List α) :
    LastAt base c (text ++ [c]) (some (base + text.length)) :=
  ⟨text, [], rfl, rfl, by simp⟩

theorem LastAt.concat (h : LastAt base c text i) (hne : d ≠ c) :
    LastAt base c (text ++ [d]) i := by
  cases i with
  | none =>
      intro hmem
      rw [List.mem_append, List.mem_singleton] at hmem
      exact hmem.elim h (Ne.symm hne)
  | some p =>
      obtain ⟨front, back, htext, hp, hback⟩ := h
      refine ⟨front, back ++ [d], by simp [htext], hp, ?_⟩
      intro hmem
      rw [List.mem_append, List.mem_singleton] at hmem
      exact hmem.elim hback (Ne.symm hne)

/-- There is one last place at most. -/
theorem LastAt.unique (hi : LastAt base c text i) (hj : LastAt base c text j) : i = j := by
  cases i with
  | none =>
      cases j with
      | none => rfl
      | some q =>
          obtain ⟨front, back, htext, -, -⟩ := hj
          exact absurd (by simp [htext]) hi
  | some p =>
      obtain ⟨front, back, htext, hp, hback⟩ := hi
      cases j with
      | none => exact absurd (by simp [htext]) hj
      | some q =>
          obtain ⟨front', back', htext', hq, hback'⟩ := hj
          rw [htext] at htext'
          have hfront := ((append_cons_inj_back hback hback').mp htext').1
          rw [hp, hq, hfront]

/-- A text with the last place of one character before the last place of another. -/
theorem LastAt.between {p q : ℕ} (hp : LastAt base c text (some p))
    (hq : LastAt base d text (some q)) (hlt : p < q) :
    ∃ front mid back, text = front ++ c :: (mid ++ d :: back) ∧ p = base + front.length ∧
      q = base + (front.length + 1 + mid.length) ∧ c ∉ mid ∧ c ∉ back ∧ d ∉ back := by
  obtain ⟨front, rest, htext, hfront, hrest⟩ := hp
  obtain ⟨front', back, htext', hfront', hback⟩ := hq
  have heq : front' ++ d :: back = (front ++ [c]) ++ rest := by
    rw [← htext', htext, List.append_assoc, List.singleton_append]
  obtain ⟨mid, hmid⟩ : front ++ [c] <+: front' := by
    refine List.prefix_of_prefix_length_le ⟨rest, heq.symm⟩ (List.prefix_append _ _) ?_
    rw [List.length_append, List.length_singleton]
    omega
  rw [← hmid, List.append_assoc, List.append_cancel_left_eq] at heq
  refine ⟨front, mid, back, by rw [htext, heq], hfront, ?_, ?_, ?_, hback⟩
  · rw [hfront', ← hmid]
    simp only [List.length_append, List.length_singleton]
  · intro hmem
    exact hrest (by simp [← heq, hmem])
  · intro hmem
    exact hrest (by simp [← heq, hmem])

end G3log.Fields
