import Mathlib.Data.List.Infix

/-!
# Search and replacement in a text

A text is a list. `find` gives the place where another list stands in it for the first
time, and `replace` puts a third one in place of some of its characters, both as
`std::string` has them.

## Main definitions

* `find`, `findFrom`, `replace` -- search, search from a place, replacement.
* `find_eq_none_iff`, `find_append` -- no occurrence, and one behind a text without any.
-/

namespace G3log.Search

variable {α : Type} [DecidableEq α]

/-- The place where `sub` stands in a text first. -/
def find (sub : List α) : List α → Option ℕ
  | [] => if sub = [] then some 0 else none
  | c :: text =>
      if sub.isPrefixOf (c :: text) then some 0 else (find sub text).map (· + 1)

/-- The first place at or behind `pos`. -/
def findFrom (sub text : List α) (pos : ℕ) : Option ℕ :=
  (find sub (text.drop pos)).map (pos + ·)

/-- Put `value` in place of the `len` characters at `pos`, or of those that are left. -/
def replace (text : List α) (pos len : ℕ) (value : List α) : List α :=
  text.take pos ++ value ++ text.drop (pos + len)

theorem find_eq_none_iff {sub text : List α} : find sub text = none ↔ ¬ sub <:+: text := by
  induction text with
  | nil => simp [find]
  | cons c text ih =>
      rw [find, List.infix_cons_iff, not_or, ← ih]
      by_cases h : sub <+: c :: text
      · simp [h]
      · simp [h]

/-- What is found stands there. -/
theorem exists_of_find {sub text : List α} {i : ℕ} (h : find sub text = some i) :
    ∃ front rest, text = front ++ (sub ++ rest) ∧ front.length = i := by
  induction text generalizing i with
  | nil =>
      by_cases hsub : sub = []
      · rw [hsub] at h
        cases h
        exact ⟨[], [], by simp [hsub], rfl⟩
      · simp [find, hsub] at h
  | cons c text ih =>
      rw [find] at h
      split at h
      · next hsub =>
          cases h
          obtain ⟨rest, hrest⟩ := List.isPrefixOf_iff_prefix.mp hsub
          exact ⟨[], rest, hrest.symm, rfl⟩
      · obtain ⟨j, hj, rfl⟩ := Option.map_eq_some_iff.mp h
        obtain ⟨front, rest, rfl, rfl⟩ := ih hj
        exact ⟨c :: front, rest, rfl, rfl⟩

/-- Characters that `sub` does not begin with are passed by. -/
theorem find_append {c : α} {sub : List α} (skipped text : List α) (h : c ∉ skipped) :
    find (c :: sub) (skipped ++ text) = (find (c :: sub) text).map (skipped.length + ·) := by
  induction skipped with
  | nil => simp
  | cons d skipped ih =>
      have hd : c ≠ d := by
        intro heq
        simp [heq] at h
      have hrest : c ∉ skipped := by
        intro hmem
        simp [hmem] at h
      rw [List.cons_append, find, ih hrest]
      simp only [List.isPrefixOf, beq_eq_false_iff_ne.mpr hd, Bool.false_and, Option.map_map]
      cases find (c :: sub) text with
      | none => rfl
      | some i =>
          simp only [Bool.false_eq_true, if_false, Option.map_some, Function.comp_apply,
            List.length_cons, Option.some.injEq]
          omega

/-- A search from inside a text that `sub` does not begin in goes on behind it. -/
theorem findFrom_append {c : α} {sub front : List α} (text : List α) {pos : ℕ}
    (hpos : pos ≤ front.length) (h : c ∉ front.drop pos) :
    findFrom (c :: sub) (front ++ text) pos =
      (find (c :: sub) text).map (front.length + ·) := by
  rw [findFrom, List.drop_append_of_le_length hpos, find_append _ _ h, Option.map_map]
  cases find (c :: sub) text with
  | none => rfl
  | some i =>
      simp only [Option.map_some, Function.comp_apply, List.length_drop, Option.some.injEq]
      omega

omit [DecidableEq α] in
theorem replace_append (front text value : List α) (len : ℕ) :
    replace (front ++ text) front.length len value = front ++ value ++ text.drop len := by
  simp [replace]

/-- Where nothing is found, and where something is found behind a head, it is not at the
head. -/
theorem not_isPrefix_of_find_cons {c : α} {sub text : List α}
    (h : find sub (c :: text) ≠ some 0) : ¬ sub <+: c :: text := by
  intro hsub
  apply h
  simp [find, hsub]

theorem find_cons {c : α} {sub text : List α} (h : ¬ sub <+: c :: text) :
    find sub (c :: text) = (find sub text).map (· + 1) := by
  simp [find, h]

end G3log.Search
