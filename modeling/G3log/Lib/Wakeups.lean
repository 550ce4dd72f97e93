import G3log.Lib.Monitor
import Mathlib.Algebra.GroupWithZero.Nat
import Mathlib.Algebra.Order.BigOperators.Group.Finset

/-!
# No wake-up is lost

The operations of a monitor often wait for something that others leave there: an item to
take, a slot to fill. An operation that leaves something wakes one sleeper. That is enough:
while there are sleepers, what is there is spoken for by threads that are awake, each of
which is to take one or to wake somebody up, and nobody sleeps for good beside something to
take.

## Main definitions

* `Counting` -- what there is to take, and the operations that take one.
* `Awake`, `awake_of_reachable` -- the threads that are awake account for all there is.
* `Quiet`, `Awake.of_quiet` -- when no thread can go on, all are asleep and nothing is there.
* `length_le_work` -- without new calls the threads come to that in so many steps.
-/

namespace G3log.Monitors

open Transition

variable {ι σ Op ρ : Type} {M : Monitor σ Op ρ} {takes : Op → Bool} {count : σ → ℕ}
  {s₀ : σ} {s s' : State ι σ Op ρ}

/-- The operations that wait take something, and wait as long as there is nothing. -/
structure Counting (M : Monitor σ Op ρ) (takes : Op → Bool) (count : σ → ℕ) : Prop where
  waits_iff : ∀ op x, M.waits op x = true ↔ takes op = true ∧ count x = 0
  balance : ∀ op x, M.waits op x = false →
    count ((M.body op).run x).1 + (takes op).toNat ≤ count x + (M.notifies op).toNat

/-- How much a thread is to take, or to tell others about. -/
def weight (takes : Op → Bool) : Option (Call σ Op ρ) → ℕ
  | none => 0
  | some c =>
      match c.place with
      | .lock | .waiting | .leaving _ => 0
      | .notify _ => 1
      | .test | .inside _ | .woken => (takes c.op).toNat

/-- As long as there are sleepers, the threads of a finite set account for what is there, with
`spare` to do. -/
structure Covers (takes : Op → Bool) (count : σ → ℕ) (spare : ℕ) (s : State ι σ Op ρ)
    (threads : Finset ι) : Prop where
  mem : ∀ t, s.pc t ≠ none → t ∈ threads
  le : s.waiters ≠ [] →
    count s.settled + spare ≤ ∑ t ∈ threads, weight takes (s.pc t)

/-- As long as there are sleepers, the threads that are awake account for what is there. -/
structure Awake (takes : Op → Bool) (count : σ → ℕ) (s : State ι σ Op ρ) : Prop where
  covers : ∃ threads, Covers takes count 0 s threads
  sleepers : ∀ t c, s.pc t = some c → c.place = .waiting → takes c.op = true

theorem awake_init : Awake takes count (init s₀ : State ι σ Op ρ) := by
  constructor
  · exact ⟨∅, by simp [init], by simp [init]⟩
  · simp [init]

/-- Threads without a call may be counted as well. -/
theorem Covers.mono {spare : ℕ} {threads threads' : Finset ι}
    (h : Covers takes count spare s threads) (hsub : threads ⊆ threads') :
    Covers takes count spare s threads' := by
  constructor
  · intro t ht
    exact hsub (h.mem t ht)
  · intro hwaiters
    exact (h.le hwaiters).trans (Finset.sum_le_sum_of_subset hsub)

/-- No wake-up has been lost: when there are sleepers and something is there, a thread is awake
that is to take it or to wake somebody up. -/
theorem Awake.exists_weight (h : Awake takes count s) (hwaiters : s.waiters ≠ [])
    (hcount : 0 < count s.settled) : ∃ t, 0 < weight takes (s.pc t) := by
  obtain ⟨threads, hthreads⟩ := h.covers
  have hle := hthreads.le hwaiters
  by_contra hnone
  have hzero : ∑ t ∈ threads, weight takes (s.pc t) = 0 := by
    apply Finset.sum_eq_zero
    intro t _
    by_contra ht
    exact hnone ⟨t, Nat.pos_of_ne_zero ht⟩
  omega

section Steps
variable [DecidableEq ι] {a : Action ι Op}

/-- What the threads add up to, when one of them changes. -/
theorem sum_eq_of_update {threads : Finset ι} {t : ι} {f g : ι → ℕ} (ht : t ∈ threads)
    (hrest : ∀ u, u ≠ t → g u = f u) :
    ∑ u ∈ threads, g u + f t = ∑ u ∈ threads, f u + g t := by
  have hsum : ∑ u ∈ threads.erase t, g u = ∑ u ∈ threads.erase t, f u :=
    Finset.sum_congr rfl fun u hu => hrest u (Finset.ne_of_mem_erase hu)
  rw [← Finset.add_sum_erase _ g ht, ← Finset.add_sum_erase _ f ht, hsum]
  omega

/-- A thread that moves changes what it accounts for, and perhaps what is there. -/
theorem Covers.update {spare spare' : ℕ} {threads : Finset ι} {t : ι}
    {o : Option (Call σ Op ρ)} (h : Covers takes count spare s threads)
    (hpc : s'.pc = Function.update s.pc t o)
    (hle : s'.waiters ≠ [] → count s'.settled + spare' = 0 ∨ s.waiters ≠ [] ∧
      count s'.settled + spare' + weight takes (s.pc t) ≤
        count s.settled + spare + weight takes o) :
    Covers takes count spare' s' (insert t threads) := by
  have hinsert := h.mono (Finset.subset_insert t threads)
  constructor
  · intro u hu
    rw [hpc] at hu
    by_cases hut : u = t
    · simp [hut]
    · rw [Function.update_of_ne hut] at hu
      exact hinsert.mem u hu
  · intro hwaiters
    rcases hle hwaiters with hzero | ⟨hbefore, hle⟩
    · omega
    · have hsum := sum_eq_of_update (f := fun u => weight takes (s.pc u))
        (g := fun u => weight takes (s'.pc u)) (Finset.mem_insert_self t threads)
        fun u hu => by rw [hpc, Function.update_of_ne hu]
      have hself : weight takes (s'.pc t) = weight takes o := by rw [hpc, Function.update_self]
      have := hinsert.le hbefore
      omega

/-- The next place of a thread accounts for as much as the one before, or nothing is there. -/
theorem Awake.update (h : Awake takes count s) {t : ι} {o : Option (Call σ Op ρ)}
    (hpc : s'.pc = Function.update s.pc t o)
    (hle : s'.waiters ≠ [] → count s'.settled = 0 ∨ s.waiters ≠ [] ∧
      count s'.settled + weight takes (s.pc t) ≤ count s.settled + weight takes o)
    (hsleeper : ∀ c, o = some c → c.place = .waiting → takes c.op = true) :
    Awake takes count s' := by
  obtain ⟨threads, hthreads⟩ := h.covers
  constructor
  · exact ⟨_, hthreads.update (o := o) hpc hle⟩
  · intro u d hd hplace
    rw [hpc] at hd
    rcases update_eq_some hd with ⟨-, hd⟩ | ⟨-, hd⟩
    · exact hsleeper d hd hplace
    · exact h.sleepers u d hd hplace

theorem Awake.unlock (h : Awake takes count s) (hM : Counting M takes count)
    (hsound : Sound M s₀ s) {t : ι} {c : Call σ Op ρ} {r : ρ} (hpc : s.pc t = some c)
    (hplace : c.place = .inside (.ret r)) :
    Awake takes count
      ((s.unlock c r).goto t c (if M.notifies c.op then .notify r else .leaving r)) := by
  obtain ⟨hwaits, hrun⟩ := (hsound.exclusive.fits t).inside c _ hpc hplace
  have hbalance := hM.balance c.op s.settled hwaits
  rw [← hrun] at hbalance
  refine h.update rfl ?_ ?_
  · intro hwaiters
    refine .inr ⟨hwaiters, ?_⟩
    simp only [hpc, weight, hplace, State.goto, State.unlock]
    cases hnotifies : M.notifies c.op <;>
      simpa [hnotifies, Section.run] using hbalance
  · intro d hd hwaiting
    obtain rfl := Option.some.inj hd
    split at hwaiting <;> cases hwaiting

/-- A sleeper that is woken takes over from the thread that has woken it. -/
theorem Awake.wake (h : Awake takes count s) (hexcl : Exclusive M s) {t u : ι}
    {c d : Call σ Op ρ} {r : ρ} (hpc : s.pc t = some c) (hplace : c.place = .notify r)
    (hmem : u ∈ s.waiters) (hpc' : s.pc u = some d) :
    Awake takes count ((s.woken u d).goto t c (.leaving r)) := by
  have hplace' := hexcl.place_of_mem hmem hpc'
  have htakes := h.sleepers u d hpc' hplace'
  have hne : t ≠ u := by
    rintro rfl
    obtain rfl : c = d := Option.some.inj (hpc.symm.trans hpc')
    simp [hplace] at hplace'
  obtain ⟨threads, hthreads⟩ := h.covers
  have hwoken : Covers takes count 1 (s.woken u d) (insert u threads) := by
    refine hthreads.update rfl ?_
    intro _
    refine .inr ⟨List.ne_nil_of_mem hmem, ?_⟩
    simp [State.woken, State.goto, hpc', weight, hplace', htakes]
  constructor
  · refine ⟨_, hwoken.update rfl ?_⟩
    intro hwaiters
    refine .inr ⟨hwaiters, ?_⟩
    simp [State.woken, State.goto, Function.update_of_ne hne, hpc, weight, hplace]
  · intro v e he hwaiting
    rcases update_eq_some he with ⟨-, he⟩ | ⟨-, he⟩
    · obtain rfl := Option.some.inj he
      cases hwaiting
    · rcases update_eq_some he with ⟨-, he⟩ | ⟨-, he⟩
      · obtain rfl := Option.some.inj he
        cases hwaiting
      · exact h.sleepers v e he hwaiting

theorem Awake.move (h : Awake takes count s) (hM : Counting M takes count)
    (hsound : Sound M s₀ s) (hmove : Move M s a s') : Awake takes count s' := by
  cases hmove with
  | call hpc =>
      refine h.update rfl ?_ (by simp)
      intro hwaiters
      exact .inr ⟨hwaiters, by simp [hpc, weight]⟩
  | @lock t c hpc hplace hfree =>
      refine h.update rfl ?_ (by simp)
      intro hwaiters
      refine .inr ⟨hwaiters, ?_⟩
      rcases hplace with hplace | hplace <;> simp [hpc, weight, hplace, State.goto]
  | @sleep t c hpc hplace hwaits =>
      obtain ⟨htakes, hzero⟩ := (hM.waits_iff _ _).mp hwaits
      rw [(hsound.exclusive.fits t).test c hpc hplace] at hzero
      refine h.update rfl ?_ ?_
      · intro _
        exact .inl hzero
      · intro d hd _
        obtain rfl := Option.some.inj hd
        exact htakes
  | enter hpc hplace hwaits =>
      refine h.update rfl ?_ (by simp)
      intro hwaiters
      exact .inr ⟨hwaiters, by simp [hpc, weight, hplace, State.goto]⟩
  | stmt hpc hplace =>
      refine h.update rfl ?_ (by simp)
      intro hwaiters
      exact .inr ⟨hwaiters, by simp [hpc, weight, hplace, State.goto]⟩
  | unlock hpc hplace => exact h.unlock hM hsound hpc hplace
  | ret hpc hplace =>
      refine h.update rfl ?_ (by simp)
      intro hwaiters
      exact .inr ⟨hwaiters, by simp [hpc, weight, hplace]⟩
  | @spurious u d hmem hpc =>
      refine h.update rfl ?_ (by simp)
      intro _
      refine .inr ⟨List.ne_nil_of_mem hmem, ?_⟩
      simp [hpc, weight, hsound.exclusive.place_of_mem hmem hpc, State.woken, State.goto]
  | wake hpc hplace hmem hpc' => exact h.wake hsound.exclusive hpc hplace hmem hpc'
  | notify hpc hplace hempty =>
      refine h.update rfl ?_ (by simp)
      intro hwaiters
      exact absurd hempty hwaiters

theorem awake_of_reachable {Ok : State ι σ Op ρ → Action ι Op → Prop}
    (hM : Counting M takes count) (h : (monitor M s₀).ReachableBy Ok s) :
    Awake takes count s := by
  apply h.invariant
  · intro s hs
    rw [hs]
    exact awake_init
  · intro s a s' hs _ hawake hstep
    exact hawake.move hM (sound_of_reachable hs) (move_of_step hstep)

/-! ## Nobody can go on -/

/-- No thread in an operation can go on, unless a sleeper wakes up by itself. -/
def Quiet (M : Monitor σ Op ρ) (s : State ι σ Op ρ) : Prop :=
  ∀ t, step M s (.run t) = none ∧ ∀ u, step M s (.notify t u) = none

theorem Quiet.owner (h : Quiet M s) (hexcl : Exclusive M s) : s.owner = none := by
  cases howner : s.owner with
  | none => rfl
  | some t =>
      obtain ⟨c, hpc, hholds⟩ := (hexcl.fits t).owner_iff.mp howner
      have hnone := (h t).1
      simp only [step, hpc, Option.bind_some, State.run] at hnone
      cases hplace : c.place with
      | test =>
          rw [hplace] at hnone
          simp only at hnone
          split at hnone <;> cases hnone
      | inside rest =>
          cases rest <;> simp [hplace] at hnone
      | _ => simp [hplace, Place.holds] at hholds

theorem Quiet.waiting (h : Quiet M s) (hexcl : Exclusive M s) {t : ι} {c : Call σ Op ρ}
    (hpc : s.pc t = some c) : c.place = .waiting := by
  have howner := h.owner hexcl
  have hnone := (h t).1
  simp only [step, hpc, Option.bind_some, State.run] at hnone
  cases hplace : c.place with
  | lock => simp [hplace, howner] at hnone
  | test =>
      have := hexcl.owner_of_holds hpc (by simp [hplace, Place.holds])
      simp [howner] at this
  | inside rest =>
      have := hexcl.owner_of_holds hpc (by simp [hplace, Place.holds])
      simp [howner] at this
  | waiting => rfl
  | woken => simp [hplace, howner] at hnone
  | notify r =>
      cases hwaiters : s.waiters with
      | nil =>
          have hnotify := (h t).2 none
          simp [step, hpc, State.notify, hplace, hwaiters] at hnotify
      | cons u us =>
          have hmem : u ∈ s.waiters := by simp [hwaiters]
          obtain ⟨d, hd, -⟩ := (hexcl.fits u).waiters_iff.mp hmem
          have hnotify := (h t).2 (some u)
          simp [step, hpc, State.notify, hplace, State.wake, hmem, hd] at hnotify
  | leaving r => simp [hplace] at hnone

/-- When no thread can go on, each thread in an operation is asleep, and there is nothing that
it could take. -/
theorem Awake.of_quiet (h : Awake takes count s) (hsound : Sound M s₀ s) (hquiet : Quiet M s) :
    (∀ t c, s.pc t = some c → c.place = .waiting ∧ takes c.op = true) ∧
      (s.waiters ≠ [] → count s.shared = 0) := by
  have hplace := fun t c hpc => hquiet.waiting hsound.exclusive (t := t) (c := c) hpc
  constructor
  · intro t c hpc
    exact ⟨hplace t c hpc, h.sleepers t c hpc (hplace t c hpc)⟩
  · intro hwaiters
    rw [hsound.exclusive.free (hquiet.owner hsound.exclusive)]
    by_contra hcount
    obtain ⟨t, ht⟩ := h.exists_weight hwaiters (Nat.pos_of_ne_zero hcount)
    cases hpc : s.pc t with
    | none => simp [hpc, weight] at ht
    | some c => simp [hpc, weight, hplace t c hpc] at ht

/-! ## How long the threads go on -/

/-- How many statements are executed. -/
def Section.length : Section σ ρ → σ → ℕ
  | .ret _, _ => 0
  | .stmt update next, x => (next x).length (update x) + 1

/-- No section has more than `bound` statements, and what takes something wakes nobody and is
not charged for. -/
structure WorkBound (M : Monitor σ Op ρ) (takes : Op → Bool) (bound : ℕ) (charge : Op → ℕ) :
    Prop where
  length_le : ∀ op x, (M.body op).length x ≤ bound
  notifies : ∀ op, takes op = true → M.notifies op = false
  charge : ∀ op, takes op = true → charge op = 0

/-- What a call still has to do after its section. A sleeper that it wakes has to go through
the operation again. -/
def after (M : Monitor σ Op ρ) (bound : ℕ) (op : Op) : ℕ :=
  if M.notifies op then bound + 6 else 1

/-- How many steps a thread can still make, as long as nobody wakes it. The charge is what
others may have to do once the call has taken place. -/
def rank (M : Monitor σ Op ρ) (bound : ℕ) (charge : Op → ℕ) (x : σ) :
    Option (Call σ Op ρ) → ℕ
  | none => 0
  | some c =>
      match c.place with
      | .waiting => 0
      | .leaving _ => 1
      | .notify _ => bound + 6
      | .inside rest => rest.length x + 1 + after M bound c.op + charge c.op
      | .test => bound + 2 + after M bound c.op + charge c.op
      | .lock | .woken => bound + 3 + after M bound c.op + charge c.op

/-- How many steps there are in all, without new calls. -/
def work (M : Monitor σ Op ρ) (bound : ℕ) (charge : Op → ℕ) (threads : Finset ι)
    (s : State ι σ Op ρ) : ℕ :=
  ∑ t ∈ threads, rank M bound charge s.shared (s.pc t)

/-- What the calls that have taken place were charged for. -/
def charged (charge : Op → ℕ) (s : State ι σ Op ρ) : ℕ := (s.order.map (charge ·.op)).sum

variable {bound : ℕ} {charge : Op → ℕ} {threads : Finset ι}

/-- The value only matters to the thread that holds the mutex. -/
theorem rank_eq_of_not_holds {x y : σ} {o : Option (Call σ Op ρ)}
    (h : ∀ c, o = some c → c.place.holds = false) :
    rank M bound charge x o = rank M bound charge y o := by
  cases o with
  | none => rfl
  | some c =>
      have hholds := h c rfl
      cases hplace : c.place with
      | inside rest => simp [hplace, Place.holds] at hholds
      | _ => simp [rank, hplace]

/-- One thread moves, and the value is nothing to the others. -/
theorem work_update (bound : ℕ) (charge : Op → ℕ) {t : ι} {o : Option (Call σ Op ρ)}
    (hexcl : Exclusive M s) (ht : t ∈ threads) (hpc : s'.pc = Function.update s.pc t o)
    (hvalue : s'.shared = s.shared ∨ s.owner = some t) :
    work M bound charge threads s' + rank M bound charge s.shared (s.pc t) =
      work M bound charge threads s + rank M bound charge s'.shared o := by
  have hsum := sum_eq_of_update (f := fun u => rank M bound charge s.shared (s.pc u))
    (g := fun u => rank M bound charge s'.shared (s'.pc u)) ht ?_
  · rw [hpc, Function.update_self] at hsum
    rw [work, work, hpc]
    exact hsum
  · intro u hu
    rw [hpc, Function.update_of_ne hu]
    rcases hvalue with hshared | howner
    · rw [hshared]
    · apply rank_eq_of_not_holds
      intro c hc
      by_contra hholds
      rw [hexcl.owner_of_holds hc (by simpa using hholds)] at howner
      exact hu (Option.some.inj howner)

/-- A thread that has less to do itself leaves less to do in all. -/
theorem work_lt_of_rank {t : ι} {o : Option (Call σ Op ρ)} {spent : ℕ} (hexcl : Exclusive M s)
    (ht : t ∈ threads) (hpc : s'.pc = Function.update s.pc t o)
    (hvalue : s'.shared = s.shared ∨ s.owner = some t)
    (hcharged : charged charge s' = charged charge s + spent)
    (hrank : rank M bound charge s'.shared o + spent < rank M bound charge s.shared (s.pc t)) :
    work M bound charge threads s' + charged charge s' <
      work M bound charge threads s + charged charge s := by
  have hwork := work_update bound charge hexcl ht hpc hvalue
  omega

/-- The next step of a thread leaves less to do. -/
theorem work_lt_of_run {t : ι} (hB : WorkBound M takes bound charge) (hexcl : Exclusive M s)
    (ht : t ∈ threads) (hmove : Move M s (.run t) s') :
    work M bound charge threads s' + charged charge s' <
      work M bound charge threads s + charged charge s := by
  cases hmove with
  | lock hpc hplace hfree =>
      refine work_lt_of_rank hexcl ht rfl (.inl rfl) (Nat.add_zero _).symm ?_
      rcases hplace with hplace | hplace
      all_goals
        simp only [hpc, rank, hplace]
        omega
  | sleep hpc hplace hwaits =>
      refine work_lt_of_rank hexcl ht rfl (.inl rfl) (Nat.add_zero _).symm ?_
      simp only [hpc, rank, hplace]
      omega
  | @enter _ c hpc hplace hwaits =>
      refine work_lt_of_rank hexcl ht rfl (.inl rfl) (Nat.add_zero _).symm ?_
      have := hB.length_le c.op s.shared
      simp only [hpc, rank, hplace, State.goto]
      omega
  | stmt hpc hplace =>
      refine work_lt_of_rank hexcl ht rfl ?_ (Nat.add_zero _).symm ?_
      · exact .inr (hexcl.owner_of_holds hpc (by simp [hplace, Place.holds]))
      · simp only [hpc, rank, hplace, State.goto, Section.length]
        omega
  | @unlock _ c r hpc hplace =>
      have hspent : charged charge ((s.unlock c r).goto t c
          (if M.notifies c.op then .notify r else .leaving r)) =
          charged charge s + charge c.op := by
        simp [charged, State.goto, State.unlock]
      refine work_lt_of_rank hexcl ht rfl (.inl rfl) hspent ?_
      simp only [hpc, rank, hplace, after]
      cases M.notifies c.op <;> simp [Section.length]
  | ret hpc hplace =>
      refine work_lt_of_rank hexcl ht rfl (.inl rfl) (Nat.add_zero _).symm ?_
      simp [hpc, rank, hplace]

/-- A sleeper that is woken has less to do than `notify_one` had. -/
theorem work_lt_of_notify {t : ι} {v : Option ι} (hB : WorkBound M takes bound charge)
    (hexcl : Exclusive M s) (hawake : Awake takes count s)
    (hthreads : ∀ t, s.pc t ≠ none → t ∈ threads) (hmove : Move M s (.notify t v) s') :
    work M bound charge threads s' + charged charge s' <
      work M bound charge threads s + charged charge s := by
  cases hmove with
  | @wake _ u c d r hpc hplace hmem hpc' =>
      have hplace' := hexcl.place_of_mem hmem hpc'
      have htakes := hawake.sleepers u d hpc' hplace'
      have hne : t ≠ u := by
        rintro rfl
        exact hexcl.notMem_waiters hpc (by simp [hplace, Place.asleep]) hmem
      have hwoken : work M bound charge threads (s.woken u d) =
          work M bound charge threads s + (bound + 4) := by
        have hwork : work M bound charge threads (s.woken u d) + _ = _ + _ :=
          work_update bound charge hexcl (hthreads u (by simp [hpc'])) rfl (.inl rfl)
        simpa [hpc', rank, hplace', after, hB.notifies d.op htakes, hB.charge d.op htakes]
          using hwork
      have hpc₁ : (s.woken u d).pc t = some c := by
        simpa [State.woken, State.goto, Function.update_of_ne hne] using hpc
      have hlt : work M bound charge threads ((s.woken u d).goto t c (.leaving r)) +
          (bound + 6) = work M bound charge threads (s.woken u d) + 1 := by
        have hwork : work M bound charge threads ((s.woken u d).goto t c (.leaving r)) + _ =
            _ + _ :=
          work_update bound charge (hexcl.wake hmem hpc') (hthreads t (by simp [hpc])) rfl
            (.inl rfl)
        simpa [hpc₁, rank, hplace] using hwork
      refine Nat.add_lt_add_right ?_ (charged charge s)
      omega
  | notify hpc hplace hempty =>
      refine work_lt_of_rank hexcl (hthreads t (by simp [hpc])) rfl (.inl rfl)
        (Nat.add_zero _).symm ?_
      simp only [hpc, rank, hplace]
      omega

/-- A step that is neither a new call nor a sleeper that wakes up by itself. -/
def Action.proper : Action ι Op → Bool
  | .run _ | .notify _ _ => true
  | .call _ _ | .spurious _ => false

theorem update_eq_none {f : ι → Option (Call σ Op ρ)} {t u : ι} {o : Option (Call σ Op ρ)}
    {c : Call σ Op ρ} (hpc : f t = some c) (hnone : f u = none) :
    Function.update f t o u = none := by
  have hne : u ≠ t := by
    rintro rfl
    simp [hpc] at hnone
  rw [Function.update_of_ne hne, hnone]

/-- Only a call brings in a thread. -/
theorem pc_eq_none_of_move {u : ι} (hnone : s.pc u = none) (ha : a.proper = true)
    (hmove : Move M s a s') : s'.pc u = none := by
  cases hmove with
  | call hpc => cases ha
  | lock hpc hplace hfree => exact update_eq_none hpc hnone
  | sleep hpc hplace hwaits => exact update_eq_none hpc hnone
  | enter hpc hplace hwaits => exact update_eq_none hpc hnone
  | stmt hpc hplace => exact update_eq_none hpc hnone
  | unlock hpc hplace => exact update_eq_none hpc hnone
  | ret hpc hplace => exact update_eq_none hpc hnone
  | spurious hmem hpc => cases ha
  | @wake t v c d r hpc hplace hmem hpc' =>
      have hne : u ≠ t := by
        rintro rfl
        simp [hpc] at hnone
      have hne' : u ≠ v := by
        rintro rfl
        simp [hpc'] at hnone
      simp [State.woken, State.goto, Function.update_of_ne hne, Function.update_of_ne hne', hnone]
  | notify hpc hplace hempty => exact update_eq_none hpc hnone

/-- A proper step leaves less to do. -/
theorem work_lt (hB : WorkBound M takes bound charge) (hexcl : Exclusive M s)
    (hawake : Awake takes count s) (hthreads : ∀ t, s.pc t ≠ none → t ∈ threads)
    (ha : a.proper = true) (hstep : step M s a = some s') :
    work M bound charge threads s' + charged charge s' <
      work M bound charge threads s + charged charge s := by
  have hmove := move_of_step hstep
  cases a with
  | run t =>
      cases hpc : s.pc t with
      | none => simp [step, hpc] at hstep
      | some c => exact work_lt_of_run hB hexcl (hthreads t (by simp [hpc])) hmove
  | notify t v => exact work_lt_of_notify hB hexcl hawake hthreads hmove
  | call t op => cases ha
  | spurious t => cases ha

/-- A call brings in what there is to do for it. -/
theorem work_call {t : ι} {op : Op} (hexcl : Exclusive M s) (ht : t ∈ threads)
    (hmove : Move M s (.call t op) s') :
    work M bound charge threads s' + charged charge s' =
      work M bound charge threads s + charged charge s +
        (bound + 3 + after M bound op + charge op) := by
  have hpc' : s'.pc = Function.update s.pc t (some ⟨s.calls, op, .lock⟩) := by
    cases hmove
    rfl
  have hshared : s'.shared = s.shared := by
    cases hmove
    rfl
  have hcharged : charged charge s' = charged charge s := by
    cases hmove
    rfl
  have hpc : s.pc t = none := by
    cases hmove
    assumption
  have hwork := work_update bound charge hexcl ht hpc' (.inl hshared)
  simp only [hpc, rank] at hwork
  omega

/-- Without new calls, and sleepers that wake up by themselves, the threads make no more steps
than there is to do. -/
theorem length_le_work {as : List (Action ι Op)} (hM : Counting M takes count)
    (hB : WorkBound M takes bound fun _ => 0) (hsound : Sound M s₀ s)
    (hawake : Awake takes count s) (hthreads : ∀ t, s.pc t ≠ none → t ∈ threads)
    (hrun : (monitor M s₀).runBy (fun _ a => a.proper) s as = some s') :
    as.length ≤ work M bound (fun _ => 0) threads s := by
  refine System.length_le_of_bound (S := monitor M s₀)
    (B := fun k s => Sound M s₀ s ∧ Awake takes count s ∧ (∀ t, s.pc t ≠ none → t ∈ threads) ∧
      work M bound (fun _ => 0) threads s ≤ k) ?_ ⟨hsound, hawake, hthreads, le_rfl⟩ hrun
  rintro k s a s' ⟨hsound, hawake, hthreads, hle⟩ ha hstep
  have hmove := move_of_step hstep
  have hlt := work_lt hB hsound.exclusive hawake hthreads ha hstep
  simp only [charged, List.map_const', List.sum_replicate_nat, Nat.mul_zero] at hlt
  refine ⟨work M bound (fun _ => 0) threads s', by omega, hsound.move hmove,
    hawake.move hM hsound hmove, fun t ht => ?_, le_rfl⟩
  exact hthreads t fun hnone => ht (pc_eq_none_of_move hnone ha hmove)

end Steps
end G3log.Monitors
