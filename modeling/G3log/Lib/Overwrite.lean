import Mathlib.Data.List.Basic
import Mathlib.Data.List.TakeDrop
import Mathlib.Order.Basic

/-!
# Overwriting a sequence of cells, and where each cell came from

A file is a sequence of cells that a stream overwrites at its own offset, padding
when the offset is past the end. Each cell may carry a tag, the piece of input it
came from. The lemmas say which tagged blocks survive a write.

## Main definitions

* `writeAt pad cs off new` -- overwrite `cs` from `off` on.
* `Untagged`, `Absent` -- no cell has a tag, no cell has this tag.
* `Once` -- a block stands whole in a sequence, and its tag nowhere else in it.
* `TagsOrdered` -- the tags increase along a sequence.
-/

namespace G3log.Overwrite

variable {α ι : Type*}

/-- Overwrite the cells from `off` on with `new`, padding if `off` is past the end. -/
def writeAt (pad : α) (cs : List α) (off : ℕ) (new : List α) : List α :=
  cs.take off ++ List.replicate (off - cs.length) pad ++ new ++ cs.drop (off + new.length)

/-- A write at the end of a part overwrites what follows the part. -/
theorem writeAt_append (pad : α) (front rest new : List α) :
    writeAt pad (front ++ rest) front.length new = front ++ new ++ rest.drop new.length := by
  simp [writeAt, List.drop_append, List.drop_eq_nil_of_le]

/-- Two writes one after the other are one. -/
theorem writeAt_writeAt (pad : α) (cs : List α) (off : ℕ) (new next : List α) :
    writeAt pad (writeAt pad cs off new) (off + new.length) next =
      writeAt pad cs off (new ++ next) := by
  have hfront : (cs.take off ++ List.replicate (off - cs.length) pad ++ new).length =
      off + new.length := by
    simp only [List.length_append, List.length_take, List.length_replicate]
    omega
  have hwrite : writeAt pad cs off new =
      (cs.take off ++ List.replicate (off - cs.length) pad ++ new) ++
        cs.drop (off + new.length) := rfl
  rw [hwrite, ← hfront, writeAt_append, List.drop_drop, hfront, writeAt, List.length_append,
    Nat.add_assoc, List.append_assoc _ new next]

variable (tag : α → Option ι)

/-- No cell came from any piece of input. -/
def Untagged (cs : List α) : Prop := ∀ c ∈ cs, tag c = none

/-- No cell came from the piece of input `i`. -/
def Absent (i : ι) (cs : List α) : Prop := ∀ c ∈ cs, tag c ≠ some i

/-- The block stands whole in `cs`, and `i` tags nothing outside of it. -/
def Once (i : ι) (block cs : List α) : Prop :=
  ∃ front back, cs = front ++ block ++ back ∧ Absent tag i front ∧ Absent tag i back

/-- The tags increase along the sequence. -/
def TagsOrdered [Preorder ι] (cs : List α) : Prop := (cs.filterMap tag).Pairwise (· ≤ ·)

variable {tag}

theorem Untagged.absent {cs : List α} (h : Untagged tag cs) (i : ι) : Absent tag i cs := by
  intro c hc
  simp [h c hc]

@[simp] theorem untagged_nil : Untagged tag ([] : List α) := by simp [Untagged]

@[simp] theorem untagged_append {cs ds : List α} :
    Untagged tag (cs ++ ds) ↔ Untagged tag cs ∧ Untagged tag ds := by
  simp [Untagged, or_imp, forall_and]

@[simp] theorem absent_append {i : ι} {cs ds : List α} :
    Absent tag i (cs ++ ds) ↔ Absent tag i cs ∧ Absent tag i ds := by
  simp [Absent, or_imp, forall_and]

theorem Untagged.filterMap {cs : List α} (h : Untagged tag cs) : cs.filterMap tag = [] :=
  List.filterMap_eq_nil_iff.mpr h

theorem Untagged.drop {cs : List α} (h : Untagged tag cs) (n : ℕ) : Untagged tag (cs.drop n) :=
  fun c hc => h c (List.mem_of_mem_drop hc)

/-- Writing untagged cells into an untagged sequence leaves it untagged. -/
theorem Untagged.writeAt {pad : α} {cs new : List α} (h : Untagged tag cs)
    (hpad : tag pad = none) (hnew : Untagged tag new) (off : ℕ) :
    Untagged tag (writeAt pad cs off new) := by
  simp only [Overwrite.writeAt, untagged_append]
  refine ⟨⟨⟨fun c hc => h c (List.mem_of_mem_take hc), fun c hc => ?_⟩, hnew⟩, h.drop _⟩
  rw [List.eq_of_mem_replicate hc, hpad]

/-- A write brings in only its own tags. -/
theorem Absent.writeAt {i : ι} {pad : α} {cs new : List α} (h : Absent tag i cs)
    (hpad : tag pad = none) (hnew : Absent tag i new) (off : ℕ) :
    Absent tag i (writeAt pad cs off new) := by
  simp only [Overwrite.writeAt, absent_append]
  refine ⟨⟨⟨fun c hc => h c (List.mem_of_mem_take hc), fun c hc => ?_⟩, hnew⟩,
    fun c hc => h c (List.mem_of_mem_drop hc)⟩
  rw [List.eq_of_mem_replicate hc, hpad]
  simp

theorem Once.append {i : ι} {block cs ds : List α} (h : Once tag i block cs)
    (hds : Absent tag i ds) : Once tag i block (cs ++ ds) := by
  obtain ⟨front, back, rfl, hfront, hback⟩ := h
  exact ⟨front, back ++ ds, by simp, hfront, absent_append.mpr ⟨hback, hds⟩⟩

/-- A new block at the end stands there once. -/
theorem Absent.once_append {i : ι} {cs : List α} (h : Absent tag i cs) (block : List α) :
    Once tag i block (cs ++ block) :=
  ⟨cs, [], by simp, h, by simp [Absent]⟩

theorem Once.mem {i : ι} {block cs : List α} (h : Once tag i block cs) {c : α}
    (hc : c ∈ block) : c ∈ cs := by
  obtain ⟨front, back, rfl, -, -⟩ := h
  simp [hc]

variable [Preorder ι]

@[simp] theorem tagsOrdered_nil : TagsOrdered tag ([] : List α) := by simp [TagsOrdered]

theorem TagsOrdered.append_untagged {cs ds : List α} (h : TagsOrdered tag cs)
    (hds : Untagged tag ds) : TagsOrdered tag (cs ++ ds) := by
  simpa [TagsOrdered, hds.filterMap] using h

/-- A block whose one tag is above all earlier ones keeps the order. -/
theorem TagsOrdered.append_block {i : ι} {cs block : List α} (h : TagsOrdered tag cs)
    (hblock : ∀ c ∈ block, tag c = some i)
    (hle : ∀ c ∈ cs, ∀ j, tag c = some j → j ≤ i) : TagsOrdered tag (cs ++ block) := by
  have htag : ∀ j ∈ block.filterMap tag, j = i := by
    intro j hj
    obtain ⟨c, hc, hcj⟩ := List.mem_filterMap.mp hj
    exact Option.some.inj (hcj.symm.trans (hblock c hc))
  rw [TagsOrdered, List.filterMap_append, List.pairwise_append]
  refine ⟨h, List.pairwise_of_forall_mem_list fun j hj k hk => ?_, fun j hj k hk => ?_⟩
  · rw [htag j hj, htag k hk]
  · obtain ⟨c, hc, hcj⟩ := List.mem_filterMap.mp hj
    rw [htag k hk]; exact hle c hc j hcj

end G3log.Overwrite
