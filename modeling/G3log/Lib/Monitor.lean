import G3log.Lib.Transition
import Mathlib.Data.List.Nodup
import Mathlib.Data.List.Sublists
import Mathlib.Logic.Function.Basic

/-!
# Monitors

A monitor is a value behind a mutex, with a condition variable. An operation locks the
mutex, sleeps on the condition variable as long as its test tells it to wait, runs the
statements of its critical section one at a time, unlocks, and may then notify one of the
sleepers. Any number of threads call operations, the waker chooses whom it wakes, and a
sleeper may also wake up by itself.

What the threads see is the history of their calls and returns. It is linearizable: the
operations that have taken place can be put into an order that explains every result, and
that respects the order of calls that do not overlap.

## Main definitions

* `Section`, `Monitor` -- the statements of a critical section, and what each operation is.
* `State`, `step`, `monitor` -- the threads in any interleaving.
* `Move` -- all that a step can do.
* `Spec`, `Legal`, `Linearization` -- a sequential object, and a history that is one in effect.
* `Sound.linearization` -- the histories of a monitor are linearizable.
* `Observed` -- a step, as far as what is built on the monitor has to know.
-/

namespace G3log.Monitors

open Transition

/-- Statements on a shared value. Each of them leaves a new value, and what comes next depends
on the old one. -/
inductive Section (σ ρ : Type)
  | ret (r : ρ)
  | stmt (update : σ → σ) (next : σ → Section σ ρ)

/-- The statements when nothing else touches the value. -/
def Section.run {σ ρ : Type} : Section σ ρ → σ → σ × ρ
  | .ret r, s => (s, r)
  | .stmt update next, s => (next s).run (update s)

/-- The operations on a shared value of type `σ`. -/
structure Monitor (σ Op ρ : Type) where
  /-- The test of the loop around `wait`. -/
  waits : Op → σ → Bool
  body : Op → Section σ ρ
  /-- The operation calls `notify_one` after it has unlocked. -/
  notifies : Op → Bool

/-- Where a thread is in an operation. -/
inductive Place (σ ρ : Type)
  | lock
  /-- It holds the mutex, at the test of the loop. -/
  | test
  /-- It holds the mutex, in the critical section. -/
  | inside (rest : Section σ ρ)
  | waiting
  /-- It has been woken, and is to lock the mutex again. -/
  | woken
  | notify (r : ρ)
  | leaving (r : ρ)

/-- A call in progress. -/
structure Call (σ Op ρ : Type) where
  id : ℕ
  op : Op
  place : Place σ ρ

/-- What the threads see. -/
inductive Event (ι Op ρ : Type)
  | call (id : ℕ) (t : ι) (op : Op)
  | ret (id : ℕ) (r : ρ)
  deriving DecidableEq

/-- A call that has taken place. -/
structure Entry (Op ρ : Type) where
  id : ℕ
  op : Op
  result : ρ

structure State (ι σ Op ρ : Type) where
  shared : σ
  /-- The thread that holds the mutex. -/
  owner : Option ι
  /-- The sleepers of the condition variable. -/
  waiters : List ι
  pc : ι → Option (Call σ Op ρ)
  calls : ℕ
  history : List (Event ι Op ρ)
  /-- The value as of the last unlock. -/
  settled : σ
  /-- The calls in the order of their unlocks. -/
  order : List (Entry Op ρ)

/-- Who moves: a new call, the next step of a thread, a sleeper that wakes up by itself, or a
`notify_one` that wakes the thread given. -/
inductive Action (ι Op : Type)
  | call (t : ι) (op : Op)
  | run (t : ι)
  | spurious (t : ι)
  | notify (t : ι) (u : Option ι)

def init {ι σ Op ρ : Type} (s₀ : σ) : State ι σ Op ρ :=
  ⟨s₀, none, [], fun _ => none, 0, [], s₀, []⟩

section Steps
variable {ι σ Op ρ : Type} [DecidableEq ι]

def State.goto (s : State ι σ Op ρ) (t : ι) (c : Call σ Op ρ) (p : Place σ ρ) :
    State ι σ Op ρ :=
  { s with pc := Function.update s.pc t (some { c with place := p }) }

/-- The mutex is free again, and the call has taken place. -/
def State.unlock (s : State ι σ Op ρ) (c : Call σ Op ρ) (r : ρ) : State ι σ Op ρ :=
  { s with
    owner := none
    settled := s.shared
    order := s.order ++ [Entry.mk c.id c.op r] }

/-- The next step of a thread that is in an operation. -/
def State.run (M : Monitor σ Op ρ) (t : ι) (s : State ι σ Op ρ) (c : Call σ Op ρ) :
    Option (State ι σ Op ρ) :=
  match c.place with
  | .lock | .woken =>
      if s.owner.isNone then some ({ s with owner := some t }.goto t c .test) else none
  | .test =>
      if M.waits c.op s.shared then
        some ({ s with owner := none, waiters := s.waiters ++ [t] }.goto t c .waiting)
      else some (s.goto t c (.inside (M.body c.op)))
  | .inside (.stmt update next) =>
      some ({ s with shared := update s.shared }.goto t c (.inside (next s.shared)))
  | .inside (.ret r) =>
      some ((s.unlock c r).goto t c (if M.notifies c.op then .notify r else .leaving r))
  | .leaving r =>
      some { s with
        history := s.history ++ [.ret c.id r]
        pc := Function.update s.pc t none }
  | .waiting | .notify _ => none

/-- A sleeper stops to be one. -/
def State.woken (s : State ι σ Op ρ) (u : ι) (d : Call σ Op ρ) : State ι σ Op ρ :=
  { s with waiters := s.waiters.erase u }.goto u d .woken

def State.wake (s : State ι σ Op ρ) (u : ι) : Option (State ι σ Op ρ) :=
  if u ∈ s.waiters then
    (s.pc u).map (s.woken u)
  else none

/-- `notify_one` wakes a sleeper, if there is one. -/
def State.notify (t : ι) (u : Option ι) (s : State ι σ Op ρ) (c : Call σ Op ρ) :
    Option (State ι σ Op ρ) :=
  match c.place, u with
  | .notify r, some u => (s.wake u).map fun s => s.goto t c (.leaving r)
  | .notify r, none => if s.waiters.isEmpty then some (s.goto t c (.leaving r)) else none
  | _, _ => none

def step (M : Monitor σ Op ρ) (s : State ι σ Op ρ) : Action ι Op → Option (State ι σ Op ρ)
  | .call t op =>
      if (s.pc t).isNone then
        some { s with
          pc := Function.update s.pc t (some ⟨s.calls, op, .lock⟩)
          calls := s.calls + 1
          history := s.history ++ [.call s.calls t op] }
      else none
  | .run t => (s.pc t).bind (s.run M t)
  | .spurious t => s.wake t
  | .notify t u => (s.pc t).bind (s.notify t u)

/-- The threads of a monitor, which has the value `s₀` at first. -/
def monitor (M : Monitor σ Op ρ) (s₀ : σ) : System (State ι σ Op ρ) (Action ι Op) where
  Start s := s = init s₀
  step := step M

/-! ## What a step can do -/

/-- The moves of the threads. -/
inductive Move (M : Monitor σ Op ρ) (s : State ι σ Op ρ) :
    Action ι Op → State ι σ Op ρ → Prop
  | call {t : ι} {op : Op} (hpc : s.pc t = none) :
      Move M s (.call t op) { s with
        pc := Function.update s.pc t (some ⟨s.calls, op, .lock⟩)
        calls := s.calls + 1
        history := s.history ++ [.call s.calls t op] }
  | lock {t : ι} {c : Call σ Op ρ} (hpc : s.pc t = some c)
      (hplace : c.place = .lock ∨ c.place = .woken) (hfree : s.owner = none) :
      Move M s (.run t) ({ s with owner := some t }.goto t c .test)
  | sleep {t : ι} {c : Call σ Op ρ} (hpc : s.pc t = some c) (hplace : c.place = .test)
      (hwaits : M.waits c.op s.shared = true) :
      Move M s (.run t)
        ({ s with owner := none, waiters := s.waiters ++ [t] }.goto t c .waiting)
  | enter {t : ι} {c : Call σ Op ρ} (hpc : s.pc t = some c) (hplace : c.place = .test)
      (hwaits : M.waits c.op s.shared = false) :
      Move M s (.run t) (s.goto t c (.inside (M.body c.op)))
  | stmt {t : ι} {c : Call σ Op ρ} {update : σ → σ} {next : σ → Section σ ρ}
      (hpc : s.pc t = some c) (hplace : c.place = .inside (.stmt update next)) :
      Move M s (.run t)
        ({ s with shared := update s.shared }.goto t c (.inside (next s.shared)))
  | unlock {t : ι} {c : Call σ Op ρ} {r : ρ} (hpc : s.pc t = some c)
      (hplace : c.place = .inside (.ret r)) :
      Move M s (.run t)
        ((s.unlock c r).goto t c (if M.notifies c.op then .notify r else .leaving r))
  | ret {t : ι} {c : Call σ Op ρ} {r : ρ} (hpc : s.pc t = some c)
      (hplace : c.place = .leaving r) :
      Move M s (.run t) { s with
        history := s.history ++ [.ret c.id r]
        pc := Function.update s.pc t none }
  | spurious {u : ι} {d : Call σ Op ρ} (hmem : u ∈ s.waiters) (hpc : s.pc u = some d) :
      Move M s (.spurious u) (s.woken u d)
  | wake {t u : ι} {c d : Call σ Op ρ} {r : ρ} (hpc : s.pc t = some c)
      (hplace : c.place = .notify r) (hmem : u ∈ s.waiters) (hpc' : s.pc u = some d) :
      Move M s (.notify t (some u))
        ((s.woken u d).goto t c (.leaving r))
  | notify {t : ι} {c : Call σ Op ρ} {r : ρ} (hpc : s.pc t = some c)
      (hplace : c.place = .notify r) (hempty : s.waiters = []) :
      Move M s (.notify t none) (s.goto t c (.leaving r))

variable {M : Monitor σ Op ρ} {s s' : State ι σ Op ρ} {a : Action ι Op}

theorem move_of_run {t : ι} {c : Call σ Op ρ} (hpc : s.pc t = some c)
    (h : s.run M t c = some s') : Move M s (.run t) s' := by
  unfold State.run at h
  split at h
  · next hplace =>
      split at h
      · next hfree =>
          obtain rfl := Option.some.inj h
          exact .lock hpc (.inl hplace) (Option.isNone_iff_eq_none.mp hfree)
      · cases h
  · next hplace =>
      split at h
      · next hfree =>
          obtain rfl := Option.some.inj h
          exact .lock hpc (.inr hplace) (Option.isNone_iff_eq_none.mp hfree)
      · cases h
  · next hplace =>
      split at h
      · next hwaits =>
          obtain rfl := Option.some.inj h
          exact .sleep hpc hplace hwaits
      · next hwaits =>
          obtain rfl := Option.some.inj h
          exact .enter hpc hplace (by simpa using hwaits)
  · next hplace =>
      obtain rfl := Option.some.inj h
      exact .stmt hpc hplace
  · next hplace =>
      obtain rfl := Option.some.inj h
      exact .unlock hpc hplace
  · next hplace =>
      obtain rfl := Option.some.inj h
      exact .ret hpc hplace
  · cases h
  · cases h

theorem wake_eq_some {u : ι} (h : s.wake u = some s') :
    ∃ d, u ∈ s.waiters ∧ s.pc u = some d ∧
      s' = s.woken u d := by
  unfold State.wake at h
  split at h
  · next hmem =>
      obtain ⟨d, hd, rfl⟩ := Option.map_eq_some_iff.mp h
      exact ⟨d, hmem, hd, rfl⟩
  · cases h

theorem move_of_step (h : step M s a = some s') : Move M s a s' := by
  cases a with
  | call t op =>
      simp only [step] at h
      split at h
      · next hpc =>
          obtain rfl := Option.some.inj h
          exact .call (Option.isNone_iff_eq_none.mp hpc)
      · cases h
  | run t =>
      obtain ⟨c, hpc, hrun⟩ := Option.bind_eq_some_iff.mp h
      exact move_of_run hpc hrun
  | spurious t =>
      obtain ⟨d, hmem, hpc, rfl⟩ := wake_eq_some h
      exact .spurious hmem hpc
  | notify t u =>
      obtain ⟨c, hpc, hnotify⟩ := Option.bind_eq_some_iff.mp h
      unfold State.notify at hnotify
      split at hnotify
      · next hplace =>
          obtain ⟨s₁, hwake, rfl⟩ := Option.map_eq_some_iff.mp hnotify
          obtain ⟨d, hmem, hpc', rfl⟩ := wake_eq_some hwake
          exact .wake hpc hplace hmem hpc'
      · next hplace =>
          split at hnotify
          · next hempty =>
              obtain rfl := Option.some.inj hnotify
              exact .notify hpc hplace (List.isEmpty_iff.mp hempty)
          · cases hnotify
      · cases hnotify

end Steps

/-! ## Mutual exclusion -/

section Exclusive
variable {ι σ Op ρ : Type} {M : Monitor σ Op ρ} {s s' : State ι σ Op ρ}

def Place.holds : Place σ ρ → Bool
  | .test | .inside _ => true
  | _ => false

def Place.asleep : Place σ ρ → Bool
  | .waiting => true
  | _ => false

/-- How the mutex, the sleepers and the value are related to where a thread is. The statements
that it has executed in its critical section add up, with those it has not, to the section
executed at once. -/
structure Fits (M : Monitor σ Op ρ) (s : State ι σ Op ρ) (t : ι) (o : Option (Call σ Op ρ)) :
    Prop where
  owner_iff : s.owner = some t ↔ ∃ c, o = some c ∧ c.place.holds = true
  waiters_iff : t ∈ s.waiters ↔ ∃ c, o = some c ∧ c.place.asleep = true
  test : ∀ c, o = some c → c.place = .test → s.shared = s.settled
  inside : ∀ c rest, o = some c → c.place = .inside rest →
    M.waits c.op s.settled = false ∧ rest.run s.shared = (M.body c.op).run s.settled

/-- One thread at most holds the mutex, and the value is settled when none does. -/
structure Exclusive (M : Monitor σ Op ρ) (s : State ι σ Op ρ) : Prop where
  fits : ∀ t, Fits M s t (s.pc t)
  nodup : s.waiters.Nodup
  free : s.owner = none → s.shared = s.settled

/-- Outside the critical section a thread knows nothing of the value. -/
theorem fits_outside {t : ι} {c : Call σ Op ρ} (hholds : c.place.holds = false)
    (howner : s.owner ≠ some t) (hwaiters : t ∈ s.waiters ↔ c.place.asleep = true) :
    Fits M s t (some c) := by
  constructor
  · simp [howner, hholds]
  · simpa using hwaiters
  · intro d hd hplace
    obtain rfl := Option.some.inj hd
    simp [hplace, Place.holds] at hholds
  · intro d rest hd hplace
    obtain rfl := Option.some.inj hd
    simp [hplace, Place.holds] at hholds

/-- A thread is not concerned by what others do, as long as they leave the value alone while it
holds the mutex. -/
theorem Fits.frame {u : ι} {o : Option (Call σ Op ρ)} (h : Fits M s u o)
    (howner : s'.owner = some u ↔ s.owner = some u)
    (hwaiters : u ∈ s'.waiters ↔ u ∈ s.waiters)
    (hvalue : s.owner = some u → s'.shared = s.shared ∧ s'.settled = s.settled) :
    Fits M s' u o := by
  constructor
  · exact howner.trans h.owner_iff
  · exact hwaiters.trans h.waiters_iff
  · intro c hc hplace
    obtain ⟨hshared, hsettled⟩ := hvalue (h.owner_iff.mpr ⟨c, hc, by simp [hplace, Place.holds]⟩)
    rw [hshared, hsettled]
    exact h.test c hc hplace
  · intro c rest hc hplace
    obtain ⟨hshared, hsettled⟩ := hvalue (h.owner_iff.mpr ⟨c, hc, by simp [hplace, Place.holds]⟩)
    rw [hshared, hsettled]
    exact h.inside c rest hc hplace

theorem Exclusive.owner_of_holds (h : Exclusive M s) {t : ι} {c : Call σ Op ρ}
    (hpc : s.pc t = some c) (hplace : c.place.holds = true) : s.owner = some t :=
  (h.fits t).owner_iff.mpr ⟨c, hpc, hplace⟩

theorem Exclusive.owner_ne (h : Exclusive M s) {t : ι} {c : Call σ Op ρ}
    (hpc : s.pc t = some c) (hplace : c.place.holds = false) : s.owner ≠ some t := by
  intro howner
  obtain ⟨d, hd, hholds⟩ := (h.fits t).owner_iff.mp howner
  obtain rfl : c = d := Option.some.inj (hpc.symm.trans hd)
  simp [hplace] at hholds

theorem Exclusive.notMem_waiters (h : Exclusive M s) {t : ι} {c : Call σ Op ρ}
    (hpc : s.pc t = some c) (hplace : c.place.asleep = false) : t ∉ s.waiters := by
  intro hmem
  obtain ⟨d, hd, hasleep⟩ := (h.fits t).waiters_iff.mp hmem
  obtain rfl : c = d := Option.some.inj (hpc.symm.trans hd)
  simp [hplace] at hasleep

theorem Exclusive.place_of_mem (h : Exclusive M s) {u : ι} {d : Call σ Op ρ}
    (hmem : u ∈ s.waiters) (hpc : s.pc u = some d) : d.place = .waiting := by
  obtain ⟨c, hc, hasleep⟩ := (h.fits u).waiters_iff.mp hmem
  obtain rfl : d = c := Option.some.inj (hpc.symm.trans hc)
  cases hplace : d.place with
  | waiting => rfl
  | _ => simp [hplace, Place.asleep] at hasleep

theorem exclusive_init (M : Monitor σ Op ρ) (s₀ : σ) :
    Exclusive M (init s₀ : State ι σ Op ρ) := by
  constructor
  · intro t
    constructor <;> simp [init]
  · simp [init]
  · simp [init]

/-- No thread but the one that holds the mutex has to be told of a new value. -/
theorem Exclusive.owner_elim (h : Exclusive M s) {t u : ι} {c : Call σ Op ρ}
    (hpc : s.pc t = some c) (hplace : c.place.holds = true) (hu : u ≠ t) (P : Prop)
    (howner : s.owner = some u) : P := by
  rw [h.owner_of_holds hpc hplace] at howner
  exact absurd (Option.some.inj howner).symm hu

variable [DecidableEq ι] {a : Action ι Op}

theorem fits_update {t : ι} {o : Option (Call σ Op ρ)} (h : Exclusive M s)
    (hpc : s'.pc = Function.update s.pc t o) (hself : Fits M s' t o)
    (howner : ∀ u, u ≠ t → (s'.owner = some u ↔ s.owner = some u))
    (hwaiters : ∀ u, u ≠ t → (u ∈ s'.waiters ↔ u ∈ s.waiters))
    (hvalue : ∀ u, u ≠ t → s.owner = some u → s'.shared = s.shared ∧ s'.settled = s.settled)
    (u : ι) : Fits M s' u (s'.pc u) := by
  by_cases hu : u = t
  · rw [hu, hpc, Function.update_self]
    exact hself
  · rw [hpc, Function.update_of_ne hu]
    exact (h.fits u).frame (howner u hu) (hwaiters u hu) (hvalue u hu)

theorem Exclusive.call (h : Exclusive M s) {t : ι} {op : Op} (hpc : s.pc t = none) :
    Exclusive M { s with
      pc := Function.update s.pc t (some ⟨s.calls, op, .lock⟩)
      calls := s.calls + 1
      history := s.history ++ [.call s.calls t op] } := by
  have hfits := h.fits t
  rw [hpc] at hfits
  constructor
  · apply fits_update h rfl
    · apply fits_outside rfl
      · simpa using hfits.owner_iff
      · simpa [Place.asleep] using hfits.waiters_iff
    all_goals simp
  · exact h.nodup
  · exact h.free

/-- A thread without the mutex moves on. -/
theorem Exclusive.goto (h : Exclusive M s) {t : ι} {c : Call σ Op ρ} {p : Place σ ρ}
    (hpc : s.pc t = some c) (hholds : c.place.holds = false) (hasleep : c.place.asleep = false)
    (hholds' : p.holds = false) (hasleep' : p.asleep = false) : Exclusive M (s.goto t c p) := by
  constructor
  · apply fits_update h rfl
    · apply fits_outside hholds'
      · exact h.owner_ne hpc hholds
      · simpa [State.goto, hasleep'] using h.notMem_waiters hpc hasleep
    all_goals simp [State.goto]
  · exact h.nodup
  · exact h.free

theorem Exclusive.wake (h : Exclusive M s) {u : ι} {d : Call σ Op ρ} (hmem : u ∈ s.waiters)
    (hpc : s.pc u = some d) :
    Exclusive M (s.woken u d) := by
  have hholds : d.place.holds = false := by simp [h.place_of_mem hmem hpc, Place.holds]
  constructor
  · apply fits_update h rfl
    · apply fits_outside rfl
      · exact h.owner_ne hpc hholds
      · simp [State.woken, State.goto, Place.asleep, h.nodup.not_mem_erase]
    · simp [State.woken, State.goto]
    · intro v hv
      simp [State.woken, State.goto, List.mem_erase_of_ne hv]
    · simp [State.woken, State.goto]
  · exact h.nodup.erase u
  · exact h.free

theorem Exclusive.lock (h : Exclusive M s) {t : ι} {c : Call σ Op ρ} (hpc : s.pc t = some c)
    (hasleep : c.place.asleep = false) (hfree : s.owner = none) :
    Exclusive M ({ s with owner := some t }.goto t c .test) := by
  constructor
  · apply fits_update h rfl
    · constructor
      · simp [State.goto, Place.holds]
      · simpa [State.goto, Place.asleep] using h.notMem_waiters hpc hasleep
      · intro d hd hplace
        exact h.free hfree
      · intro d rest hd hplace
        obtain rfl := Option.some.inj hd
        cases hplace
    · intro u hu
      simp [State.goto, hfree, Ne.symm hu]
    · simp [State.goto]
    · simp [State.goto]
  · exact h.nodup
  · simp [State.goto]

/-- The thread that holds the mutex goes on in its critical section. -/
theorem Exclusive.inside (h : Exclusive M s) {t : ι} {c : Call σ Op ρ} {x : σ}
    {rest : Section σ ρ} (hpc : s.pc t = some c) (hplace : c.place.holds = true)
    (hwaits : M.waits c.op s.settled = false)
    (hrun : rest.run x = (M.body c.op).run s.settled) :
    Exclusive M ({ s with shared := x }.goto t c (.inside rest)) := by
  have howner := h.owner_of_holds hpc hplace
  have hasleep : c.place.asleep = false := by
    cases hc : c.place with
    | waiting => simp [hc, Place.holds] at hplace
    | _ => rfl
  constructor
  · apply fits_update h rfl
    · constructor
      · simp [State.goto, Place.holds, howner]
      · simpa [State.goto, Place.asleep] using h.notMem_waiters hpc hasleep
      · intro d hd hplace
        obtain rfl := Option.some.inj hd
        cases hplace
      · intro d rest' hd hrest
        obtain rfl := Option.some.inj hd
        obtain rfl := Place.inside.inj hrest
        exact ⟨hwaits, hrun⟩
    · simp [State.goto]
    · simp [State.goto]
    · intro u hu hu'
      exact h.owner_elim hpc hplace hu _ hu'
  · exact h.nodup
  · simp [State.goto, howner]

theorem Exclusive.sleep (h : Exclusive M s) {t : ι} {c : Call σ Op ρ} (hpc : s.pc t = some c)
    (hplace : c.place = .test) :
    Exclusive M ({ s with owner := none, waiters := s.waiters ++ [t] }.goto t c .waiting) := by
  have hholds : c.place.holds = true := by simp [hplace, Place.holds]
  have hnot := h.notMem_waiters hpc (by simp [hplace, Place.asleep])
  constructor
  · apply fits_update h rfl
    · apply fits_outside rfl
      · simp [State.goto]
      · simp [State.goto, Place.asleep]
    · intro u hu
      simp [State.goto, h.owner_of_holds hpc hholds, Ne.symm hu]
    · intro u hu
      simp [State.goto, hu]
    · simp [State.goto]
  · exact h.nodup.append (List.nodup_singleton t) (by simpa using hnot)
  · intro _
    exact (h.fits t).test c hpc hplace

theorem Exclusive.unlock (h : Exclusive M s) {t : ι} {c : Call σ Op ρ} {r : ρ} {p : Place σ ρ}
    (hpc : s.pc t = some c) (hplace : c.place = .inside (.ret r)) (hholds' : p.holds = false)
    (hasleep' : p.asleep = false) : Exclusive M ((s.unlock c r).goto t c p) := by
  have hholds : c.place.holds = true := by simp [hplace, Place.holds]
  have hnot := h.notMem_waiters hpc (by simp [hplace, Place.asleep])
  constructor
  · apply fits_update h rfl
    · apply fits_outside hholds'
      · simp [State.goto, State.unlock]
      · simpa [State.goto, State.unlock, hasleep'] using hnot
    · intro u hu
      simp [State.goto, State.unlock, h.owner_of_holds hpc hholds, Ne.symm hu]
    · simp [State.goto, State.unlock]
    · intro u hu hu'
      exact h.owner_elim hpc hholds hu _ hu'
  · exact h.nodup
  · simp [State.goto, State.unlock]

theorem Exclusive.ret (h : Exclusive M s) {t : ι} {c : Call σ Op ρ} {r : ρ}
    (hpc : s.pc t = some c) (hplace : c.place = .leaving r) :
    Exclusive M { s with
      history := s.history ++ [.ret c.id r]
      pc := Function.update s.pc t none } := by
  constructor
  · apply fits_update h rfl
    · constructor
      · simpa using h.owner_ne hpc (by simp [hplace, Place.holds])
      · simpa using h.notMem_waiters hpc (by simp [hplace, Place.asleep])
      · simp
      · simp
    all_goals simp
  · exact h.nodup
  · exact h.free

theorem Exclusive.move (h : Exclusive M s) (hmove : Move M s a s') : Exclusive M s' := by
  cases hmove with
  | call hpc => exact h.call hpc
  | lock hpc hplace hfree =>
      refine h.lock hpc ?_ hfree
      rcases hplace with hplace | hplace <;> simp [hplace, Place.asleep]
  | sleep hpc hplace hwaits => exact h.sleep hpc hplace
  | @enter t c hpc hplace hwaits =>
      have hsettled := (h.fits t).test c hpc hplace
      refine h.inside hpc (by simp [hplace, Place.holds]) ?_ ?_
      · rw [← hsettled]
        exact hwaits
      · rw [← hsettled]
  | @stmt t c update next hpc hplace =>
      obtain ⟨hwaits, hrun⟩ := (h.fits t).inside c _ hpc hplace
      exact h.inside hpc (by simp [hplace, Place.holds]) hwaits hrun
  | unlock hpc hplace =>
      apply h.unlock hpc hplace
      all_goals split <;> rfl
  | ret hpc hplace => exact h.ret hpc hplace
  | spurious hmem hpc => exact h.wake hmem hpc
  | @wake t u c d r hpc hplace hmem hpc' =>
      have hne : t ≠ u := by
        rintro rfl
        exact h.notMem_waiters hpc (by simp [hplace, Place.asleep]) hmem
      refine (h.wake hmem hpc').goto ?_ ?_ ?_ rfl rfl
      · simpa [State.woken, State.goto, Function.update_of_ne hne] using hpc
      · simp [hplace, Place.holds]
      · simp [hplace, Place.asleep]
  | notify hpc hplace hempty =>
      apply h.goto hpc
      all_goals simp [hplace, Place.holds, Place.asleep]

end Exclusive
/-! ## Linearizability -/

/-- A sequential object: what an operation does at once, and `none` where it has to wait. -/
abbrev Spec (α Op ρ : Type) := Op → α → Option (α × ρ)

/-- The monitor without threads. -/
def Monitor.spec {σ Op ρ : Type} (M : Monitor σ Op ρ) : Spec σ Op ρ := fun op x =>
  if M.waits op x then none else some ((M.body op).run x)

/-- The calls can be made one after the other, with the results they have. -/
def Legal {α Op ρ : Type} (spec : Spec α Op ρ) : α → List (Entry Op ρ) → α → Prop
  | x, [], y => x = y
  | x, e :: es, y => ∃ z, spec e.op x = some (z, e.result) ∧ Legal spec z es y

theorem Legal.snoc {α Op ρ : Type} {spec : Spec α Op ρ} {x y z : α} {es : List (Entry Op ρ)}
    {e : Entry Op ρ} (h : Legal spec x es y) (he : spec e.op y = some (z, e.result)) :
    Legal spec x (es ++ [e]) z := by
  induction es generalizing x with
  | nil =>
      obtain rfl : x = y := h
      exact ⟨z, he, rfl⟩
  | cons d es ih =>
      obtain ⟨x₁, hd, hrest⟩ := h
      exact ⟨x₁, hd, ih hrest⟩

/-- A pair of elements that comes up with a new last one ends with it. -/
theorem pair_sublist_concat {α : Type} {xs : List α} {x y z : α}
    (h : [x, y].Sublist (xs ++ [z])) : [x, y].Sublist xs ∨ y = z ∧ x ∈ xs := by
  rw [← List.reverse_sublist, List.reverse_append] at h
  change [y, x].Sublist (z :: xs.reverse) at h
  cases h with
  | cons _ h => exact .inl (List.reverse_sublist.mp h)
  | cons_cons _ h => exact .inr ⟨rfl, by simpa using h⟩

theorem pair_sublist_append {α : Type} {xs ys : List α} {x y : α} (hx : x ∈ xs) (hy : y ∈ ys) :
    [x, y].Sublist (xs ++ ys) :=
  (List.singleton_sublist.mpr hx).append (List.singleton_sublist.mpr hy)

/-- The calls, in an order that explains what the threads see of a sequential object: all that
have returned are among them, with what they returned, and one that had returned before
another was made stands before it. -/
structure Linearization {ι α Op ρ : Type} (spec : Spec α Op ρ) (x₀ : α)
    (history : List (Event ι Op ρ)) (order : List (Entry Op ρ)) : Prop where
  legal : ∃ x, Legal spec x₀ order x
  nodup : (order.map Entry.id).Nodup
  called : ∀ e ∈ order, ∃ t, .call e.id t e.op ∈ history
  returned : ∀ id r, .ret id r ∈ history → ∃ op, ⟨id, op, r⟩ ∈ order
  realTime : ∀ id r id' t op, [.ret id r, .call id' t op].Sublist history →
    id' ∈ order.map Entry.id → [id, id'].Sublist (order.map Entry.id)

section Linearizable
variable {ι σ Op ρ : Type} {M : Monitor σ Op ρ} {s₀ : σ} {s s' : State ι σ Op ρ}

/-- The result of a call that has taken place. -/
def Place.result : Place σ ρ → Option ρ
  | .notify r | .leaving r => some r
  | _ => none

/-- The calls are recorded once each, and those that have taken place are in the order. -/
structure Recorded (s : State ι σ Op ρ) : Prop where
  nodup : (s.order.map Entry.id).Nodup
  fresh : ∀ id t op, .call id t op ∈ s.history → id < s.calls
  caller : ∀ id t t' op op', .call id t op ∈ s.history → .call id t' op' ∈ s.history → t = t'
  called : ∀ t c, s.pc t = some c → .call c.id t c.op ∈ s.history
  ordered : ∀ e ∈ s.order, ∃ t, .call e.id t e.op ∈ s.history
  pending : ∀ t c, s.pc t = some c → c.place.result = none → c.id ∉ s.order.map Entry.id
  done : ∀ t c r, s.pc t = some c → c.place.result = some r → ⟨c.id, c.op, r⟩ ∈ s.order
  returned : ∀ id r, .ret id r ∈ s.history → ∃ op, ⟨id, op, r⟩ ∈ s.order
  realTime : ∀ id r id' t op, [.ret id r, .call id' t op].Sublist s.history →
    id' ∈ s.order.map Entry.id → [id, id'].Sublist (s.order.map Entry.id)

theorem recorded_init : Recorded (init s₀ : State ι σ Op ρ) := by
  constructor <;> simp [init]

theorem Recorded.id_ne (h : Recorded s) {t u : ι} {c d : Call σ Op ρ} (hpc : s.pc t = some c)
    (hpc' : s.pc u = some d) (hne : u ≠ t) : d.id ≠ c.id := by
  intro hid
  have hcalled := h.called u d hpc'
  rw [hid] at hcalled
  exact hne (h.caller _ _ _ _ _ hcalled (h.called t c hpc))

theorem Recorded.notMem_order (h : Recorded s) : s.calls ∉ s.order.map Entry.id := by
  intro hmem
  obtain ⟨e, he, hid⟩ := List.mem_map.mp hmem
  obtain ⟨t, ht⟩ := h.ordered e he
  have := h.fresh _ _ _ ht
  omega

/-- What holds at any time in a monitor with threads. -/
structure Sound (M : Monitor σ Op ρ) (s₀ : σ) (s : State ι σ Op ρ) : Prop where
  exclusive : Exclusive M s
  recorded : Recorded s
  legal : Legal M.spec s₀ s.order s.settled

/-- A call takes place when it unlocks, with the effect and the result it has without threads. -/
theorem Sound.spec_unlock (h : Sound M s₀ s) {t : ι} {c : Call σ Op ρ} {r : ρ}
    (hpc : s.pc t = some c) (hplace : c.place = .inside (.ret r)) :
    M.spec c.op s.settled = some (s.shared, r) := by
  obtain ⟨hwaits, hrun⟩ := (h.exclusive.fits t).inside c _ hpc hplace
  rw [Monitor.spec, hwaits, ← hrun]
  rfl

theorem sound_init (M : Monitor σ Op ρ) (s₀ : σ) : Sound M s₀ (init s₀ : State ι σ Op ρ) :=
  ⟨exclusive_init M s₀, recorded_init, rfl⟩

variable [DecidableEq ι] {a : Action ι Op}

theorem update_eq_some {f : ι → Option (Call σ Op ρ)} {t u : ι} {o : Option (Call σ Op ρ)}
    {d : Call σ Op ρ} (h : Function.update f t o u = some d) :
    u = t ∧ o = some d ∨ u ≠ t ∧ f u = some d := by
  by_cases hu : u = t
  · rw [hu, Function.update_self] at h
    exact .inl ⟨hu, h⟩
  · rw [Function.update_of_ne hu] at h
    exact .inr ⟨hu, h⟩

/-- Where a thread goes is not recorded, as long as its call has taken place or not. -/
theorem Recorded.goto (h : Recorded s) {t : ι} {c : Call σ Op ρ} {p : Place σ ρ}
    (hpc : s.pc t = some c) (hresult : p.result = c.place.result)
    (hpc' : s'.pc = Function.update s.pc t (some { c with place := p }))
    (hcalls : s'.calls = s.calls) (hhistory : s'.history = s.history)
    (horder : s'.order = s.order) : Recorded s' := by
  obtain ⟨hnodup, hfresh, hcaller, hcalled, hordered, hpending, hdone, hreturned, hreal⟩ := h
  have hat : ∀ u d, s'.pc u = some d →
      ∃ e, s.pc u = some e ∧ d.id = e.id ∧ d.op = e.op ∧ d.place.result = e.place.result := by
    intro u d hd
    rw [hpc'] at hd
    rcases update_eq_some hd with ⟨rfl, hself⟩ | ⟨-, hd⟩
    · obtain rfl := Option.some.inj hself
      exact ⟨c, hpc, rfl, rfl, hresult⟩
    · exact ⟨d, hd, rfl, rfl, rfl⟩
  constructor
  · rwa [horder]
  · rwa [hhistory, hcalls]
  · rwa [hhistory]
  · intro u d hd
    obtain ⟨e, he, hid, hop, -⟩ := hat u d hd
    rw [hhistory, hid, hop]
    exact hcalled u e he
  · rwa [horder, hhistory]
  · intro u d hd hnone
    obtain ⟨e, he, hid, -, hr⟩ := hat u d hd
    rw [horder, hid]
    exact hpending u e he (hr ▸ hnone)
  · intro u d r hd hsome
    obtain ⟨e, he, hid, hop, hr⟩ := hat u d hd
    rw [horder, hid, hop]
    exact hdone u e r he (hr ▸ hsome)
  · rwa [horder, hhistory]
  · rwa [horder, hhistory]

theorem Recorded.call (h : Recorded s) (t : ι) (op : Op) :
    Recorded { s with
      pc := Function.update s.pc t (some ⟨s.calls, op, .lock⟩)
      calls := s.calls + 1
      history := s.history ++ [.call s.calls t op] } := by
  have hnot := h.notMem_order
  have hmem : ∀ id u op', Event.call id u op' ∈ s.history ++ [.call s.calls t op] →
      Event.call id u op' ∈ s.history ∨ id = s.calls ∧ u = t ∧ op' = op := by
    intro id u op' hid
    simpa using hid
  constructor
  · exact h.nodup
  · intro id u op' hid
    rcases hmem id u op' hid with hid | ⟨rfl, -, -⟩
    · exact Nat.lt_succ_of_lt (h.fresh id u op' hid)
    · exact Nat.lt_succ_self _
  · intro id u u' op' op'' hid hid'
    rcases hmem id u op' hid with hid | ⟨rfl, rfl, -⟩
    · rcases hmem id u' op'' hid' with hid' | ⟨rfl, -, -⟩
      · exact h.caller id u u' op' op'' hid hid'
      · exact absurd (h.fresh _ _ _ hid) (Nat.lt_irrefl _)
    · rcases hmem _ u' op'' hid' with hid' | ⟨-, rfl, -⟩
      · exact absurd (h.fresh _ _ _ hid') (Nat.lt_irrefl _)
      · rfl
  · intro u d hd
    rcases update_eq_some hd with ⟨rfl, hself⟩ | ⟨-, hd⟩
    · obtain rfl := Option.some.inj hself
      simp
    · exact List.mem_append_left _ (h.called u d hd)
  · intro e he
    obtain ⟨u, hu⟩ := h.ordered e he
    exact ⟨u, List.mem_append_left _ hu⟩
  · intro u d hd hnone
    rcases update_eq_some hd with ⟨-, hd⟩ | ⟨-, hd⟩
    · obtain rfl := Option.some.inj hd
      exact hnot
    · exact h.pending u d hd hnone
  · intro u d r hd hsome
    rcases update_eq_some hd with ⟨-, hd⟩ | ⟨-, hd⟩
    · obtain rfl := Option.some.inj hd
      cases hsome
    · exact h.done u d r hd hsome
  · intro id r hid
    exact h.returned id r (by simpa using hid)
  · intro id r id' u op' hsub hid
    rcases pair_sublist_concat hsub with hsub | ⟨heq, -⟩
    · exact h.realTime id r id' u op' hsub hid
    · -- a call that is only made now has not taken place
      obtain ⟨rfl, -, -⟩ := Event.call.inj heq
      exact absurd hid hnot

theorem Recorded.unlock (h : Recorded s) {t : ι} {c : Call σ Op ρ} {r : ρ} {p : Place σ ρ}
    (hpc : s.pc t = some c) (hplace : c.place.result = none) (hp : p.result = some r) :
    Recorded ((s.unlock c r).goto t c p) := by
  have hnot := h.pending t c hpc hplace
  have hids : ((s.unlock c r).goto t c p).order.map Entry.id = s.order.map Entry.id ++ [c.id] := by
    simp [State.unlock, State.goto]
  constructor
  · rw [hids]
    exact h.nodup.append (List.nodup_singleton _) (by simpa using hnot)
  · exact h.fresh
  · exact h.caller
  · intro u d hd
    rcases update_eq_some hd with ⟨rfl, hself⟩ | ⟨-, hd⟩
    · obtain rfl := Option.some.inj hself
      exact h.called u c hpc
    · exact h.called u d hd
  · intro e he
    rcases List.mem_append.mp he with he | he
    · exact h.ordered e he
    · obtain rfl := List.mem_singleton.mp he
      exact ⟨t, h.called t c hpc⟩
  · intro u d hd hnone
    rcases update_eq_some hd with ⟨-, hd⟩ | ⟨hu, hd⟩
    · obtain rfl := Option.some.inj hd
      rw [show Place.result p = none from hnone] at hp
      cases hp
    · rw [hids]
      simp only [List.mem_append, List.mem_singleton, not_or]
      exact ⟨h.pending u d hd hnone, h.id_ne hpc hd hu⟩
  · intro u d r' hd hsome
    rcases update_eq_some hd with ⟨-, hd⟩ | ⟨-, hd⟩
    · obtain rfl := Option.some.inj hd
      obtain rfl : r = r' := Option.some.inj (hp.symm.trans hsome)
      exact List.mem_append_right _ (List.mem_singleton.mpr rfl)
    · exact List.mem_append_left _ (h.done u d r' hd hsome)
  · intro id r' hid
    obtain ⟨op, hop⟩ := h.returned id r' hid
    exact ⟨op, List.mem_append_left _ hop⟩
  · intro id r' id' u op hsub hid
    rw [hids] at hid ⊢
    rcases List.mem_append.mp hid with hid | hid
    · exact (h.realTime id r' id' u op hsub hid).trans (List.sublist_append_left _ _)
    · obtain ⟨op', hop⟩ := h.returned id r' (hsub.subset List.mem_cons_self)
      exact pair_sublist_append (List.mem_map.mpr ⟨_, hop, rfl⟩) hid

theorem Recorded.ret (h : Recorded s) {t : ι} {c : Call σ Op ρ} {r : ρ}
    (hpc : s.pc t = some c) (hplace : c.place.result = some r) :
    Recorded { s with
      history := s.history ++ [.ret c.id r]
      pc := Function.update s.pc t none } := by
  have hmem : ∀ id u op, Event.call id u op ∈ s.history ++ [.ret c.id r] →
      Event.call id u op ∈ s.history := by
    intro id u op hid
    simpa using hid
  have hat : ∀ u d, Function.update s.pc t none u = some d → s.pc u = some d := by
    intro u d hd
    rcases update_eq_some hd with ⟨-, hd⟩ | ⟨-, hd⟩
    · cases hd
    · exact hd
  constructor
  · exact h.nodup
  · intro id u op hid
    exact h.fresh id u op (hmem id u op hid)
  · intro id u u' op op' hid hid'
    exact h.caller id u u' op op' (hmem _ _ _ hid) (hmem _ _ _ hid')
  · intro u d hd
    exact List.mem_append_left _ (h.called u d (hat u d hd))
  · intro e he
    obtain ⟨u, hu⟩ := h.ordered e he
    exact ⟨u, List.mem_append_left _ hu⟩
  · intro u d hd
    exact h.pending u d (hat u d hd)
  · intro u d r' hd
    exact h.done u d r' (hat u d hd)
  · intro id r' hid
    rcases List.mem_append.mp hid with hid | hid
    · exact h.returned id r' hid
    · obtain ⟨rfl, rfl⟩ := Event.ret.inj (List.mem_singleton.mp hid)
      exact ⟨c.op, h.done t c _ hpc hplace⟩
  · intro id r' id' u op hsub
    rcases pair_sublist_concat hsub with hsub | ⟨heq, -⟩
    · exact h.realTime id r' id' u op hsub
    · cases heq

theorem Recorded.wake (h : Recorded s) (hexcl : Exclusive M s) {u : ι} {d : Call σ Op ρ}
    (hmem : u ∈ s.waiters) (hpc : s.pc u = some d) :
    Recorded (s.woken u d) := by
  refine h.goto hpc ?_ rfl rfl rfl rfl
  simp [hexcl.place_of_mem hmem hpc, Place.result]

theorem Recorded.move (h : Recorded s) (hexcl : Exclusive M s) (hmove : Move M s a s') :
    Recorded s' := by
  cases hmove with
  | @call t op hpc => exact h.call t op
  | lock hpc hplace hfree =>
      refine h.goto hpc ?_ rfl rfl rfl rfl
      rcases hplace with hplace | hplace <;> simp [hplace, Place.result]
  | sleep hpc hplace hwaits => exact h.goto hpc (by simp [hplace, Place.result]) rfl rfl rfl rfl
  | enter hpc hplace hwaits => exact h.goto hpc (by simp [hplace, Place.result]) rfl rfl rfl rfl
  | stmt hpc hplace => exact h.goto hpc (by simp [hplace, Place.result]) rfl rfl rfl rfl
  | unlock hpc hplace =>
      refine h.unlock hpc (by simp [hplace, Place.result]) ?_
      split <;> rfl
  | ret hpc hplace => exact h.ret hpc (by simp [hplace, Place.result])
  | spurious hmem hpc => exact h.wake hexcl hmem hpc
  | @wake t u c d r hpc hplace hmem hpc' =>
      have hne : t ≠ u := by
        rintro rfl
        exact hexcl.notMem_waiters hpc (by simp [hplace, Place.asleep]) hmem
      refine (h.wake hexcl hmem hpc').goto (c := c) ?_ ?_ rfl rfl rfl rfl
      · simpa [State.woken, State.goto, Function.update_of_ne hne] using hpc
      · simp [hplace, Place.result]
  | notify hpc hplace hempty => exact h.goto hpc (by simp [hplace, Place.result]) rfl rfl rfl rfl

theorem Sound.move (h : Sound M s₀ s) (hmove : Move M s a s') : Sound M s₀ s' := by
  constructor
  · exact h.exclusive.move hmove
  · exact h.recorded.move h.exclusive hmove
  · cases hmove with
    | unlock hpc hplace => exact h.legal.snoc (h.spec_unlock hpc hplace)
    | _ => exact h.legal

theorem sound_of_reachable {Ok : State ι σ Op ρ → Action ι Op → Prop}
    (h : (monitor M s₀).ReachableBy Ok s) : Sound M s₀ s := by
  apply h.invariant
  · intro s hs
    rw [hs]
    exact sound_init M s₀
  · intro s a s' _ _ hsound hstep
    exact hsound.move (move_of_step hstep)

end Linearizable

/-- The histories of a monitor are those of a sequential object. -/
theorem Sound.linearization {ι σ Op ρ : Type} {M : Monitor σ Op ρ} {s₀ : σ}
    {s : State ι σ Op ρ} (h : Sound M s₀ s) : Linearization M.spec s₀ s.history s.order :=
  ⟨⟨_, h.legal⟩, h.recorded.nodup, h.recorded.ordered, h.recorded.returned, h.recorded.realTime⟩

/-! ## What is built on a monitor -/

section Observed
variable {ι σ Op ρ : Type} {M : Monitor σ Op ρ} {s₀ : σ} {s s' : State ι σ Op ρ}

/-- The operation that a thread is in, and its result once it has taken place. -/
def State.view (s : State ι σ Op ρ) (t : ι) : Option (Op × Option ρ) :=
  (s.pc t).map fun c => (c.op, c.place.result)

/-- The call that returns with the step, and what it returns. -/
def State.returns (s : State ι σ Op ρ) : Action ι Op → Option (ι × ρ)
  | .run t =>
      match (s.pc t).map Call.place with
      | some (.leaving r) => some (t, r)
      | _ => none
  | _ => none

theorem returns_run {t : ι} {c : Call σ Op ρ} (hpc : s.pc t = some c)
    (hplace : ∀ r, c.place ≠ .leaving r) : s.returns (.run t) = none := by
  simp only [State.returns, hpc, Option.map_some]
  cases hc : c.place with
  | leaving r => exact absurd hc (hplace r)
  | _ => rfl

variable [DecidableEq ι] {a : Action ι Op}

/-- A call is made. -/
structure Called (s : State ι σ Op ρ) (t : ι) (op : Op) (s' : State ι σ Op ρ) : Prop where
  view : s.view t = none
  view_eq : s'.view = Function.update s.view t (some (op, none))
  settled : s'.settled = s.settled
  order : s'.order = s.order

/-- In a step that is not a call, one takes place at once, or it returns, or nobody notices. -/
inductive Observed (M : Monitor σ Op ρ) (s : State ι σ Op ρ) (a : Action ι Op)
    (s' : State ι σ Op ρ) : Prop
  | silent (hreturns : s.returns a = none) (hview' : s'.view = s.view)
      (hsettled : s'.settled = s.settled) (horder : s'.order = s.order)
  | takesPlace {t : ι} {e : Entry Op ρ} (hreturns : s.returns a = none)
      (hview : s.view t = some (e.op, none))
      (hview' : s'.view = Function.update s.view t (some (e.op, some e.result)))
      (hspec : M.spec e.op s.settled = some (s'.settled, e.result))
      (horder : s'.order = s.order ++ [e])
  | ret {t : ι} {op : Op} {r : ρ} (hreturns : s.returns a = some (t, r))
      (hview : s.view t = some (op, some r))
      (hview' : s'.view = Function.update s.view t none)
      (hsettled : s'.settled = s.settled) (horder : s'.order = s.order)

theorem view_of_pc {t : ι} {o : Option (Call σ Op ρ)}
    (hpc : s'.pc = Function.update s.pc t o) :
    s'.view = Function.update s.view t (o.map fun c => (c.op, c.place.result)) := by
  funext u
  rw [State.view, hpc]
  by_cases hu : u = t
  · rw [hu, Function.update_self, Function.update_self]
  · rw [Function.update_of_ne hu, Function.update_of_ne hu, State.view]

/-- A thread moves on in an operation that has taken place, or not, as before. -/
theorem view_goto {t : ι} {c : Call σ Op ρ} {p : Place σ ρ} (hpc : s.pc t = some c)
    (hresult : p.result = c.place.result)
    (hpc' : s'.pc = Function.update s.pc t (some { c with place := p })) : s'.view = s.view := by
  rw [view_of_pc hpc']
  apply Function.update_eq_self_iff.mpr
  simp [State.view, hpc, hresult]

theorem called_of_move {t : ι} {op : Op} (hmove : Move M s (.call t op) s') :
    Called s t op s' := by
  cases hmove with
  | call hpc =>
      constructor
      · simp [State.view, hpc]
      · rw [view_of_pc rfl]
        rfl
      · rfl
      · rfl

theorem Sound.observed (h : Sound M s₀ s) (hmove : Move M s a s')
    (ha : ∀ t op, a ≠ .call t op) : Observed M s a s' := by
  cases hmove with
  | call hpc => exact absurd rfl (ha _ _)
  | lock hpc hplace hfree =>
      refine .silent (returns_run hpc ?_) (view_goto hpc ?_ rfl) rfl rfl
      · rcases hplace with hplace | hplace <;> simp [hplace]
      · rcases hplace with hplace | hplace <;> simp [hplace, Place.result]
  | sleep hpc hplace hwaits =>
      exact .silent (returns_run hpc (by simp [hplace]))
        (view_goto hpc (by simp [hplace, Place.result]) rfl) rfl rfl
  | enter hpc hplace hwaits =>
      exact .silent (returns_run hpc (by simp [hplace]))
        (view_goto hpc (by simp [hplace, Place.result]) rfl) rfl rfl
  | stmt hpc hplace =>
      exact .silent (returns_run hpc (by simp [hplace]))
        (view_goto hpc (by simp [hplace, Place.result]) rfl) rfl rfl
  | @unlock t c r hpc hplace =>
      refine .takesPlace (t := t) (e := ⟨c.id, c.op, r⟩) (returns_run hpc (by simp [hplace])) ?_ ?_
        (h.spec_unlock hpc hplace) rfl
      · simp [State.view, hpc, hplace, Place.result]
      · rw [view_of_pc rfl]
        split <;> rfl
  | @ret t c r hpc hplace =>
      have hview : s.view t = some (c.op, some r) := by
        simp [State.view, hpc, hplace, Place.result]
      refine .ret ?_ hview ?_ rfl rfl
      · simp [State.returns, hpc, hplace]
      · rw [view_of_pc rfl]
        rfl
  | @spurious u d hmem hpc =>
      have hplace := h.exclusive.place_of_mem hmem hpc
      exact .silent rfl (view_goto hpc (by simp [hplace, Place.result]) rfl) rfl rfl
  | @wake t u c d r hpc hplace hmem hpc' =>
      have hplace' := h.exclusive.place_of_mem hmem hpc'
      have hne : t ≠ u := by
        rintro rfl
        exact h.exclusive.notMem_waiters hpc (by simp [hplace, Place.asleep]) hmem
      have hwoken : (s.woken u d).view = s.view :=
        view_goto hpc' (by simp [hplace', Place.result]) rfl
      refine .silent rfl ?_ rfl rfl
      rw [← hwoken]
      refine view_goto (c := c) ?_ (by simp [hplace, Place.result]) rfl
      simpa [State.woken, State.goto, Function.update_of_ne hne] using hpc
  | notify hpc hplace hempty =>
      exact .silent rfl (view_goto hpc (by simp [hplace, Place.result]) rfl) rfl rfl

end Observed
end G3log.Monitors
