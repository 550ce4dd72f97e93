import Mathlib.Logic.Function.Basic
import Mathlib.Data.Nat.Basic

/-!
# Objects that hand their content over

A heap of objects. Some have a content, which bears a number, and making an object from
another one moves the content there: the old object stays, with what a move has left of its
value. Who may use a content is given by a relation between those who have an object and
addresses.

## Main definitions

* `Heap`, `Heap.alloc`, `handOver`, `free` -- the heap and what is done with its objects.
* `Heap.Holds`, `Heap.Has` -- an object has a content, and some object has.
* `Kept` -- each content is in one object, unchanged, and one has that object.
-/

namespace G3log.Handover

/-- An object, with the number of the content it has. The program does not store that. -/
structure Object (α : Type*) where
  value : α
  content : Option ℕ

/-- The objects that live, and the address of the next one. -/
structure Heap (α : Type*) where
  objects : ℕ → Option (Object α)
  next : ℕ

namespace Heap
variable {α : Type*}

def empty : Heap α := ⟨fun _ => none, 0⟩

/-- An object with a new content. -/
def alloc (x : α) (i : ℕ) (h : Heap α) : Heap α where
  objects := Function.update h.objects h.next (some ⟨x, some i⟩)
  next := h.next + 1

/-- An object that is made from another one. There must be one. -/
def handOver (move : α → α × α) (a : ℕ) (h : Heap α) : Option (Heap α) :=
  (h.objects a).map fun o =>
    { objects := Function.update
        (Function.update h.objects a (some ⟨(move o.value).2, none⟩)) h.next
        (some ⟨(move o.value).1, o.content⟩)
      next := h.next + 1 }

def free (a : ℕ) (h : Heap α) : Heap α :=
  { h with objects := Function.update h.objects a none }

def Holds (h : Heap α) (a i : ℕ) (x : α) : Prop := h.objects a = some ⟨x, some i⟩

def Has (h : Heap α) (i : ℕ) : Prop := ∃ a x, h.Holds a i x

theorem not_has_empty (i : ℕ) : ¬ (empty : Heap α).Has i := by
  rintro ⟨a, x, h⟩
  cases h

variable {h h' : Heap α} {a b i j : ℕ} {x y : α}

theorem objects_alloc_of_ne (hb : b ≠ h.next) (x : α) (i : ℕ) :
    (h.alloc x i).objects b = h.objects b :=
  Function.update_of_ne hb _ _

theorem objects_free_of_ne (hb : b ≠ a) : (h.free a).objects b = h.objects b :=
  Function.update_of_ne hb _ _

theorem holds_alloc : (h.alloc x i).Holds b j y ↔
    b = h.next ∧ j = i ∧ y = x ∨ b ≠ h.next ∧ h.Holds b j y := by
  by_cases hb : b = h.next
  · subst hb
    simp [Holds, alloc, eq_comm, and_comm]
  · simp [Holds, alloc, hb]

theorem holds_free : (h.free a).Holds b j y ↔ b ≠ a ∧ h.Holds b j y := by
  by_cases hb : b = a
  · simp [Holds, free, hb]
  · simp [Holds, free, hb]

theorem handOver_eq {move : α → α × α} {c : Option ℕ} (ha : h.objects a = some ⟨x, c⟩) :
    h.handOver move a = some
      { objects := Function.update (Function.update h.objects a (some ⟨(move x).2, none⟩))
          h.next (some ⟨(move x).1, c⟩)
        next := h.next + 1 } := by
  rw [handOver, ha, Option.map_some]

theorem next_handOver {move : α → α × α} (hh : h.handOver move a = some h') :
    h'.next = h.next + 1 := by
  rw [handOver] at hh
  obtain ⟨o, -, rfl⟩ := Option.map_eq_some_iff.mp hh
  rfl

/-- The content passes to the new object. -/
theorem holds_handOver {move : α → α × α} (hmove : ∀ x, (move x).1 = x) (ha : h.Holds a i x)
    (hh : h.handOver move a = some h') : h'.Holds b j y ↔
      b = h.next ∧ j = i ∧ y = x ∨ b ≠ h.next ∧ b ≠ a ∧ h.Holds b j y := by
  rw [handOver_eq ha] at hh
  obtain rfl := Option.some.inj hh
  by_cases hb : b = h.next
  · subst hb
    simp [Holds, hmove, eq_comm, and_comm]
  · by_cases hba : b = a
    · subst hba
      simp [Holds, hb]
    · simp [Holds, hb, hba]

end Heap

open Heap

section
variable {α κ : Type*} (move : α → α × α) (payload : ℕ → Option α) (At : κ → ℕ → Prop)

/-- Every content is in one object, as it was to begin with, and everyone who has an object
finds one there. No two have the same object, and the objects that nobody has hold what a
move has left of a content. -/
structure Kept (h : Heap α) : Prop where
  fresh : ∀ a, h.next ≤ a → h.objects a = none
  holds : ∀ k a, At k a → ∃ i x, h.Holds a i x ∧ payload i = some x
  placed : ∀ a i x, h.Holds a i x → ∃ k, At k a
  alone : ∀ k k' a, At k a → At k' a → k = k'
  one : ∀ a b i x y, h.Holds a i x → h.Holds b i y → a = b
  left : ∀ a x, h.objects a = some ⟨x, none⟩ → ∃ i y, payload i = some y ∧ x = (move y).2

end

variable {α κ : Type*} {move : α → α × α} {payload : ℕ → Option α} {At At' : κ → ℕ → Prop}
  {h : Heap α} {a i : ℕ} {x : α} {k : κ}

theorem kept_empty (hAt : ∀ k a, ¬ At k a) : Kept move payload At (Heap.empty : Heap α) := by
  constructor
  · intro a _
    rfl
  · intro k a ha
    exact absurd ha (hAt k a)
  · intro a i x hx
    cases hx
  · intro k k' a ha
    exact absurd ha (hAt k a)
  · intro a b i x y hx
    cases hx
  · intro a x hx
    cases hx

namespace Kept

/-- Objects that someone has are below the next address. -/
theorem lt_next (hk : Kept move payload At h) (ha : At k a) : a < h.next := by
  by_contra hle
  obtain ⟨i, x, hx, -⟩ := hk.holds k a ha
  rw [Holds, hk.fresh a (by omega)] at hx
  cases hx

theorem ne_next (hk : Kept move payload At h) (ha : At k a) : a ≠ h.next := by
  have hlt := hk.lt_next ha
  omega

theorem ne (hk : Kept move payload At h) (ha : At k a) {k' : κ} {b : ℕ} (hb : At k' b)
    (hne : k' ≠ k) : b ≠ a := by
  intro heq
  exact hne (hk.alone k' k a (heq ▸ hb) ha)

/-- All but the object that someone has are what the others have. -/
theorem others (hk : Kept move payload At h) (ha : At k a) (hall : ∀ b, At k b → b = a) (k' : κ)
    (b : ℕ) : At k' b ∧ b ≠ a ↔ k' ≠ k ∧ At k' b := by
  constructor
  · rintro ⟨hb, hba⟩
    refine ⟨?_, hb⟩
    rintro rfl
    exact hba (hall b hb)
  · rintro ⟨hne, hb⟩
    exact ⟨hb, hk.ne ha hb hne⟩

/-- One more content does not change the others. -/
theorem mono (hk : Kept move payload At h) {payload' : ℕ → Option α}
    (hle : ∀ i x, payload i = some x → payload' i = some x) : Kept move payload' At h := by
  refine ⟨hk.fresh, ?_, hk.placed, hk.alone, hk.one, ?_⟩
  · intro k a ha
    obtain ⟨i, x, hx, hi⟩ := hk.holds k a ha
    exact ⟨i, x, hx, hle i x hi⟩
  · intro a x hx
    obtain ⟨i, y, hi, rfl⟩ := hk.left a x hx
    exact ⟨i, y, hle i y hi, rfl⟩

theorem alloc (hk : Kept move payload At h) (hi : payload i = some x) (hnew : ¬ h.Has i)
    (hAt : ∀ k' b, At' k' b ↔ At k' b ∨ k' = k ∧ b = h.next) :
    Kept move payload At' (h.alloc x i) := by
  constructor
  · intro b hb
    simp only [Heap.alloc] at hb
    rw [objects_alloc_of_ne (by omega)]
    exact hk.fresh b (by omega)
  · intro k' b hb
    rcases (hAt k' b).mp hb with hb' | hb'
    · obtain ⟨j, y, hy, hj⟩ := hk.holds k' b hb'
      exact ⟨j, y, holds_alloc.mpr (.inr ⟨hk.ne_next hb', hy⟩), hj⟩
    · exact ⟨i, x, holds_alloc.mpr (.inl ⟨hb'.2, rfl, rfl⟩), hi⟩
  · intro b j y hb
    rcases holds_alloc.mp hb with hb' | hb'
    · exact ⟨k, (hAt k b).mpr (.inr ⟨rfl, hb'.1⟩)⟩
    · obtain ⟨k', hk'⟩ := hk.placed b j y hb'.2
      exact ⟨k', (hAt k' b).mpr (.inl hk')⟩
  · intro k₁ k₂ b h₁ h₂
    rcases (hAt k₁ b).mp h₁ with h₁ | h₁
    · rcases (hAt k₂ b).mp h₂ with h₂ | h₂
      · exact hk.alone k₁ k₂ b h₁ h₂
      · exact absurd h₂.2 (hk.ne_next h₁)
    · rcases (hAt k₂ b).mp h₂ with h₂ | h₂
      · exact absurd h₁.2 (hk.ne_next h₂)
      · rw [h₁.1, h₂.1]
  · intro b c j y z hb hc
    rcases holds_alloc.mp hb with hb' | hb'
    · rcases holds_alloc.mp hc with hc' | hc'
      · rw [hb'.1, hc'.1]
      · exact absurd ⟨c, z, hb'.2.1 ▸ hc'.2⟩ hnew
    · rcases holds_alloc.mp hc with hc' | hc'
      · exact absurd ⟨b, y, hc'.2.1 ▸ hb'.2⟩ hnew
      · exact hk.one b c j y z hb'.2 hc'.2
  · intro b y hb
    by_cases hne : b = h.next
    · simp [Heap.alloc, hne] at hb
    · rw [objects_alloc_of_ne hne] at hb
      exact hk.left b y hb

theorem has_alloc (hk : Kept move payload At h) (x : α) (i j : ℕ) :
    (h.alloc x i).Has j ↔ h.Has j ∨ j = i := by
  constructor
  · rintro ⟨b, y, hb⟩
    rcases holds_alloc.mp hb with hb' | hb'
    · exact .inr hb'.2.1
    · exact .inl ⟨b, y, hb'.2⟩
  · rintro (⟨b, y, hb⟩ | rfl)
    · have hne : b ≠ h.next := by
        intro heq
        rw [Holds, hk.fresh b (by omega)] at hb
        cases hb
      exact ⟨b, y, holds_alloc.mpr (.inr ⟨hne, hb⟩)⟩
    · exact ⟨h.next, x, holds_alloc.mpr (.inl ⟨rfl, rfl, rfl⟩)⟩

theorem exists_handOver (hk : Kept move payload At h) (ha : At k a) :
    ∃ h', h.handOver move a = some h' := by
  obtain ⟨i, x, hx, -⟩ := hk.holds k a ha
  exact ⟨_, handOver_eq hx⟩

theorem has_handOver (hk : Kept move payload At h) (hmove : ∀ x, (move x).1 = x) (ha : At k a)
    {h' : Heap α} (hh : h.handOver move a = some h') (j : ℕ) : h'.Has j ↔ h.Has j := by
  obtain ⟨i, x, hx, -⟩ := hk.holds k a ha
  have hiff {b : ℕ} {y : α} : h'.Holds b j y ↔
      b = h.next ∧ j = i ∧ y = x ∨ b ≠ h.next ∧ b ≠ a ∧ h.Holds b j y :=
    holds_handOver hmove hx hh
  constructor
  · rintro ⟨b, y, hb⟩
    rcases hiff.mp hb with hb' | hb'
    · exact ⟨a, x, hb'.2.1 ▸ hx⟩
    · exact ⟨b, y, hb'.2.2⟩
  · rintro ⟨b, y, hb⟩
    obtain ⟨k', hk'⟩ := hk.placed b j y hb
    by_cases hba : b = a
    · subst hba
      have hij := hb.symm.trans hx
      simp only [Option.some.injEq, Object.mk.injEq] at hij
      exact ⟨h.next, x, hiff.mpr (.inl ⟨rfl, hij.2, rfl⟩)⟩
    · exact ⟨b, y, hiff.mpr (.inr ⟨hk.ne_next hk', hba, hb⟩)⟩

/-- The content of an object that someone has passes to a new one, which that one then has. -/
theorem handOver (hk : Kept move payload At h) (hmove : ∀ x, (move x).1 = x) (ha : At k a)
    {h' : Heap α} (hh : h.handOver move a = some h')
    (hAt : ∀ k' b, At' k' b ↔ At k' b ∧ b ≠ a ∨ k' = k ∧ b = h.next) :
    Kept move payload At' h' := by
  obtain ⟨i, x, hx, hi⟩ := hk.holds k a ha
  have hiff {b j : ℕ} {y : α} : h'.Holds b j y ↔
      b = h.next ∧ j = i ∧ y = x ∨ b ≠ h.next ∧ b ≠ a ∧ h.Holds b j y :=
    holds_handOver hmove hx hh
  have hother {b : ℕ} (hb : b ≠ h.next) (hba : b ≠ a) : h'.objects b = h.objects b := by
    rw [handOver_eq hx] at hh
    rw [← Option.some.inj hh]
    simp [hb, hba]
  constructor
  · intro b hb
    have hlt := hk.lt_next ha
    rw [next_handOver hh] at hb
    rw [hother (by omega) (by omega)]
    exact hk.fresh b (by omega)
  · intro k' b hb
    rcases (hAt k' b).mp hb with hb' | hb'
    · obtain ⟨j, y, hy, hj⟩ := hk.holds k' b hb'.1
      exact ⟨j, y, hiff.mpr (.inr ⟨hk.ne_next hb'.1, hb'.2, hy⟩), hj⟩
    · exact ⟨i, x, hiff.mpr (.inl ⟨hb'.2, rfl, rfl⟩), hi⟩
  · intro b j y hb
    rcases hiff.mp hb with hb' | hb'
    · exact ⟨k, (hAt k b).mpr (.inr ⟨rfl, hb'.1⟩)⟩
    · obtain ⟨k', hk'⟩ := hk.placed b j y hb'.2.2
      exact ⟨k', (hAt k' b).mpr (.inl ⟨hk', hb'.2.1⟩)⟩
  · intro k₁ k₂ b h₁ h₂
    rcases (hAt k₁ b).mp h₁ with h₁ | h₁
    · rcases (hAt k₂ b).mp h₂ with h₂ | h₂
      · exact hk.alone k₁ k₂ b h₁.1 h₂.1
      · exact absurd h₂.2 (hk.ne_next h₁.1)
    · rcases (hAt k₂ b).mp h₂ with h₂ | h₂
      · exact absurd h₁.2 (hk.ne_next h₂.1)
      · rw [h₁.1, h₂.1]
  · intro b c j y z hb hc
    rcases hiff.mp hb with hb' | hb'
    · rcases hiff.mp hc with hc' | hc'
      · rw [hb'.1, hc'.1]
      · exact absurd (hk.one c a i z x (hb'.2.1 ▸ hc'.2.2) hx) hc'.2.1
    · rcases hiff.mp hc with hc' | hc'
      · exact absurd (hk.one b a i y x (hc'.2.1 ▸ hb'.2.2) hx) hb'.2.1
      · exact hk.one b c j y z hb'.2.2 hc'.2.2
  · intro b y hb
    by_cases hne : b = h.next
    · have hnext : h'.Holds h.next i x := hiff.mpr (.inl ⟨rfl, rfl, rfl⟩)
      rw [hne, hnext] at hb
      cases hb
    · by_cases hba : b = a
      · rw [handOver_eq hx] at hh
        rw [← Option.some.inj hh] at hb
        simp only [hba, Function.update_of_ne (hk.ne_next ha), Function.update_self,
          Option.some.injEq, Object.mk.injEq, and_true] at hb
        exact ⟨i, x, hi, hb.symm⟩
      · rw [hother hne hba] at hb
        exact hk.left b y hb

/-- An object passes from the one to the other as it is. -/
theorem give (hk : Kept move payload At h) (ha : At k a) {k₁ : κ}
    (hAt : ∀ k' b, At' k' b ↔ At k' b ∧ b ≠ a ∨ k' = k₁ ∧ b = a) :
    Kept move payload At' h := by
  refine ⟨hk.fresh, ?_, ?_, ?_, hk.one, hk.left⟩
  · intro k' b hb
    rcases (hAt k' b).mp hb with hb' | hb'
    · exact hk.holds k' b hb'.1
    · exact hb'.2 ▸ hk.holds k a ha
  · intro b j y hb
    by_cases hba : b = a
    · exact ⟨k₁, (hAt k₁ b).mpr (.inr ⟨rfl, hba⟩)⟩
    · obtain ⟨k', hk'⟩ := hk.placed b j y hb
      exact ⟨k', (hAt k' b).mpr (.inl ⟨hk', hba⟩)⟩
  · intro k' k'' b h₁ h₂
    rcases (hAt k' b).mp h₁ with h₁ | h₁
    · rcases (hAt k'' b).mp h₂ with h₂ | h₂
      · exact hk.alone k' k'' b h₁.1 h₂.1
      · exact absurd h₂.2 h₁.2
    · rcases (hAt k'' b).mp h₂ with h₂ | h₂
      · exact absurd h₁.2 h₂.2
      · rw [h₁.1, h₂.1]

/-- An object is destroyed, with the content it may have had. -/
theorem free (hk : Kept move payload At h) (hAt : ∀ k' b, At' k' b ↔ At k' b ∧ b ≠ a) :
    Kept move payload At' (h.free a) := by
  constructor
  · intro b hb
    by_cases hba : b = a
    · simp [Heap.free, hba]
    · rw [objects_free_of_ne hba]
      exact hk.fresh b hb
  · intro k' b hb
    obtain ⟨hb', hba⟩ := (hAt k' b).mp hb
    obtain ⟨j, y, hy, hj⟩ := hk.holds k' b hb'
    exact ⟨j, y, holds_free.mpr ⟨hba, hy⟩, hj⟩
  · intro b j y hb
    obtain ⟨hba, hy⟩ := holds_free.mp hb
    obtain ⟨k', hk'⟩ := hk.placed b j y hy
    exact ⟨k', (hAt k' b).mpr ⟨hk', hba⟩⟩
  · intro k₁ k₂ b h₁ h₂
    exact hk.alone k₁ k₂ b ((hAt k₁ b).mp h₁).1 ((hAt k₂ b).mp h₂).1
  · intro b c j y z hb hc
    exact hk.one b c j y z (holds_free.mp hb).2 (holds_free.mp hc).2
  · intro b y hb
    by_cases hba : b = a
    · simp [Heap.free, hba] at hb
    · rw [objects_free_of_ne hba] at hb
      exact hk.left b y hb

/-- With an object that nobody has nothing is lost. -/
theorem free_stale (hk : Kept move payload At h) (ha : ∀ k, ¬ At k a) :
    Kept move payload At (h.free a) ∧ ∀ j, (h.free a).Has j ↔ h.Has j := by
  constructor
  · apply hk.free
    intro k' b
    constructor
    · intro hb
      refine ⟨hb, ?_⟩
      intro heq
      exact ha k' (heq ▸ hb)
    · intro hb
      exact hb.1
  · intro j
    constructor
    · rintro ⟨b, y, hb⟩
      exact ⟨b, y, (holds_free.mp hb).2⟩
    · rintro ⟨b, y, hb⟩
      have hba : b ≠ a := by
        intro heq
        obtain ⟨k', hk'⟩ := hk.placed b j y hb
        exact ha k' (heq ▸ hk')
      exact ⟨b, y, holds_free.mpr ⟨hba, hb⟩⟩

/-- With one that has a content, that content is gone and no other. -/
theorem has_free (hk : Kept move payload At h) (hx : h.Holds a i x) (j : ℕ) :
    (h.free a).Has j ↔ h.Has j ∧ j ≠ i := by
  constructor
  · rintro ⟨b, y, hb⟩
    obtain ⟨hba, hy⟩ := holds_free.mp hb
    refine ⟨⟨b, y, hy⟩, ?_⟩
    intro hij
    exact hba (hk.one b a i y x (hij ▸ hy) hx)
  · rintro ⟨⟨b, y, hb⟩, hji⟩
    have hba : b ≠ a := by
      intro heq
      subst heq
      have hij := hb.symm.trans hx
      simp only [Option.some.injEq, Object.mk.injEq] at hij
      exact hji hij.2
    exact ⟨b, y, holds_free.mpr ⟨hba, hb⟩⟩

end Kept
end G3log.Handover
