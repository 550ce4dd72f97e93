import G3log.Lib.Wakeups

/-!
# The queue between threads

`shared_queue` is a `std::queue` behind a mutex, with a condition variable for those that
wait for an item. Its operations are critical sections of several statements: an item is
moved out of the queue, which leaves something behind at the front, before it is popped.

Any number of threads push and pop, and each of them may be anywhere in an operation. To them
the queue is a sequential one, and nobody sleeps in `wait_and_pop` for good while there are
items.

## Main definitions

* `SharedQueue.Op`, `shared_queue` -- the operations, as they are in the source.
* `SharedQueue.fifo` -- a queue without threads.
* `SharedQueue.linearizable`, `SharedQueue.calls_return` -- what the threads rely on.
-/

namespace G3log

open Transition Monitors

namespace SharedQueue

inductive Op (T : Type)
  | push (item : T)
  | try_and_pop
  | wait_and_pop
  | empty
  | size
  deriving DecidableEq

/-- What a call returns, or writes to `popped_item`. -/
inductive Result (T : Type)
  | void
  | popped (item : T)
  /-- `try_and_pop` has returned `false`. -/
  | nothing
  | isEmpty (b : Bool)
  | size (n : UInt32)
  /-- The front of an empty queue has been read. -/
  | undefined
  deriving DecidableEq

variable {T ι : Type}

/-- `std::move(queue_.front())` into another item. -/
def moveFront (movedFrom : T → T) : List T → List T
  | [] => []
  | item :: queue_ => movedFrom item :: queue_

/-- `popped_item = std::move(queue_.front()); queue_.pop();` -/
def pop (movedFrom : T → T) : Section (List T) (Result T) :=
  .stmt (moveFront movedFrom) fun
    | [] => .ret .undefined
    | item :: _ => .stmt List.tail fun _ => .ret (.popped item)

def body (movedFrom : T → T) : Op T → Section (List T) (Result T)
  | .push item => .stmt (· ++ [item]) fun _ => .ret .void
  | .try_and_pop => .stmt id fun queue_ => if queue_.isEmpty then .ret .nothing else pop movedFrom
  | .wait_and_pop => pop movedFrom
  | .empty => .stmt id fun queue_ => .ret (.isEmpty queue_.isEmpty)
  -- the size is converted to `unsigned`
  | .size => .stmt id fun queue_ => .ret (.size (UInt32.ofNat queue_.length))

/-- The test of the loop in `wait_and_pop`. -/
def waits : Op T → List T → Bool
  | .wait_and_pop, queue_ => queue_.isEmpty
  | _, _ => false

def notifies : Op T → Bool
  | .push _ => true
  | _ => false

end SharedQueue

open SharedQueue in
/-- The queue, for items of which a move leaves what `movedFrom` says. -/
def shared_queue {T : Type} (movedFrom : T → T) :
    Monitor (List T) (SharedQueue.Op T) (SharedQueue.Result T) where
  waits := waits
  body := body movedFrom
  notifies := notifies

namespace SharedQueue
variable {T ι : Type}

/-- A queue without threads. -/
def fifo : Spec (List T) (Op T) (Result T)
  | .push item, queue => some (queue ++ [item], .void)
  | .try_and_pop, [] => some ([], .nothing)
  | .try_and_pop, item :: queue => some (queue, .popped item)
  | .wait_and_pop, [] => none
  | .wait_and_pop, item :: queue => some (queue, .popped item)
  | .empty, queue => some (queue, .isEmpty queue.isEmpty)
  | .size, queue => some (queue, .size (UInt32.ofNat queue.length))

/-- The sections do what a queue does, and what a move leaves behind is popped at once. -/
theorem spec_shared_queue (movedFrom : T → T) : (shared_queue movedFrom).spec = fifo := by
  funext op queue
  cases op <;> cases queue <;> rfl

/-! ## What is pushed is popped -/

/-- The items pushed by some calls, in order. -/
def pushed (calls : List (Entry (Op T) (Result T))) : List T :=
  calls.filterMap fun e =>
    match e.op with
    | .push item => some item
    | _ => none

/-- The items popped by some calls, in order. -/
def popped (calls : List (Entry (Op T) (Result T))) : List T :=
  calls.filterMap fun e =>
    match e.result with
    | .popped item => some item
    | _ => none

theorem fifo_push {item : T} {queue queue' : List T} {r : Result T}
    (h : fifo (.push item) queue = some (queue', r)) : queue' = queue ++ [item] :=
  (Prod.mk.inj (Option.some.inj h)).1.symm

theorem fifo_wait_and_pop {queue queue' : List T} {r : Result T}
    (h : fifo .wait_and_pop queue = some (queue', r)) :
    ∃ item, queue = item :: queue' ∧ r = .popped item := by
  cases queue with
  | nil => cases h
  | cons item queue =>
      obtain ⟨rfl, rfl⟩ := Prod.mk.inj (Option.some.inj h)
      exact ⟨item, rfl, rfl⟩

/-- An operation moves items through the queue. -/
theorem fifo_moves {e : Entry (Op T) (Result T)} {queue queue' : List T}
    (h : fifo e.op queue = some (queue', e.result)) :
    queue ++ pushed [e] = popped [e] ++ queue' := by
  obtain ⟨id, op, result⟩ := e
  cases op with
  | push item =>
      obtain ⟨rfl, rfl⟩ := Prod.mk.inj (Option.some.inj h)
      rfl
  | try_and_pop =>
      cases queue with
      | nil =>
          obtain ⟨rfl, rfl⟩ := Prod.mk.inj (Option.some.inj h)
          rfl
      | cons item queue =>
          obtain ⟨rfl, rfl⟩ := Prod.mk.inj (Option.some.inj h)
          exact List.append_nil _
  | wait_and_pop =>
      cases queue with
      | nil => cases h
      | cons item queue =>
          obtain ⟨rfl, rfl⟩ := Prod.mk.inj (Option.some.inj h)
          exact List.append_nil _
  | empty =>
      obtain ⟨rfl, rfl⟩ := Prod.mk.inj (Option.some.inj h)
      exact List.append_nil _
  | size =>
      obtain ⟨rfl, rfl⟩ := Prod.mk.inj (Option.some.inj h)
      exact List.append_nil _

@[simp] theorem pushed_append (calls calls' : List (Entry (Op T) (Result T))) :
    pushed (calls ++ calls') = pushed calls ++ pushed calls' :=
  List.filterMap_append

@[simp] theorem popped_append (calls calls' : List (Entry (Op T) (Result T))) :
    popped (calls ++ calls') = popped calls ++ popped calls' :=
  List.filterMap_append

theorem pushed_cons (e : Entry (Op T) (Result T)) (calls : List (Entry (Op T) (Result T))) :
    pushed (e :: calls) = pushed [e] ++ pushed calls := by
  rw [← pushed_append, List.singleton_append]

theorem popped_cons (e : Entry (Op T) (Result T)) (calls : List (Entry (Op T) (Result T))) :
    popped (e :: calls) = popped [e] ++ popped calls := by
  rw [← popped_append, List.singleton_append]

/-- Items are popped in the order in which they were pushed, and the others are in the queue. -/
theorem pushed_eq_of_legal {calls : List (Entry (Op T) (Result T))} {queue queue' : List T}
    (h : Legal fifo queue calls queue') : queue ++ pushed calls = popped calls ++ queue' := by
  induction calls generalizing queue with
  | nil =>
      obtain rfl : queue = queue' := h
      exact List.append_nil _
  | cons e calls ih =>
      obtain ⟨queue₁, he, hrest⟩ := h
      rw [pushed_cons, popped_cons, ← List.append_assoc, fifo_moves he, List.append_assoc,
        ih hrest, List.append_assoc]

/-! ## The threads -/

section Threads
variable [DecidableEq ι] {movedFrom : T → T}
  {s s' : Monitors.State ι (List T) (Op T) (Result T)}

/-- Any threads, with an empty queue at first. -/
abbrev threads (ι : Type) [DecidableEq ι] (movedFrom : T → T) :
    System (Monitors.State ι (List T) (Op T) (Result T)) (Monitors.Action ι (Op T)) :=
  monitor (shared_queue movedFrom) []

/-- Whatever the threads do, they cannot tell the queue from one that does each operation at
once: no item is lost, none is popped twice, and they come in order. -/
theorem linearizable (h : (threads ι movedFrom).Reachable s) :
    ∃ calls, Linearization fifo [] s.history calls ∧
      (s.owner = none → pushed calls = popped calls ++ s.shared) := by
  have hsound := sound_of_reachable h
  have hlinear := hsound.linearization
  rw [spec_shared_queue] at hlinear
  refine ⟨s.order, hlinear, ?_⟩
  intro hfree
  have hlegal := hsound.legal
  rw [spec_shared_queue] at hlegal
  rw [hsound.exclusive.free hfree, ← pushed_eq_of_legal hlegal, List.nil_append]

/-- A thread that sleeps in `wait_and_pop` is woken by a push. -/
theorem linearizable_wait :
    ∃ s, (threads ℕ fun _ => 0).Reachable s ∧
      s.history = [.call 0 1 .wait_and_pop, .call 1 0 (.push 7), .ret 0 (.popped 7)] ∧
      ∃ calls, Linearization fifo [] s.history calls ∧
        (s.owner = none → pushed calls = popped calls ++ s.shared) := by
  have hrun : ((threads ℕ fun _ => 0).runBy (fun _ _ => true)
      (Monitors.init []) [.call 1 .wait_and_pop, .run 1, .run 1, .call 0 (.push 7), .run 0,
        .run 0, .run 0, .run 0, .notify 0 (some 1), .run 1, .run 1, .run 1, .run 1, .run 1,
        .run 1]).any (fun s => decide (s.history =
          [.call 0 1 .wait_and_pop, .call 1 0 (.push 7), .ret 0 (.popped 7)])) = true := by
    decide +kernel
  obtain ⟨s, hs, hhistory⟩ := System.exists_reachableBy rfl hrun
  exact ⟨s, hs.reachable, of_decide_eq_true hhistory, linearizable hs.reachable⟩

/-- `wait_and_pop` takes an item. -/
def takes : Op T → Bool
  | .wait_and_pop => true
  | _ => false

theorem counting_shared_queue (movedFrom : T → T) :
    Counting (shared_queue movedFrom) takes List.length := by
  constructor
  · intro op queue
    cases op <;> cases queue <;> simp [shared_queue, waits, takes]
  · intro op queue hwaits
    cases op <;> cases queue <;>
      simp_all [shared_queue, waits, takes, notifies, body, pop, moveFront, Section.run]

theorem workBound_shared_queue (movedFrom : T → T) {charge : Op T → ℕ}
    (hcharge : charge .wait_and_pop = 0) : WorkBound (shared_queue movedFrom) takes 3 charge := by
  constructor
  · intro op queue
    cases op <;> cases queue <;>
      simp [shared_queue, body, pop, Section.length]
  · intro op hop
    cases op <;> simp_all [takes, shared_queue, notifies]
  · intro op hop
    cases op <;> simp_all [takes]

/-- No wake-up is lost: once no new calls are made, every call returns after so many steps, but
those of `wait_and_pop` that find no item and sleep. -/
theorem calls_return (h : (threads ι movedFrom).Reachable s) :
    ∃ bound, ∀ as s',
      (threads ι movedFrom).runBy (fun _ a => a.proper) s as = some s' →
      as.length ≤ bound ∧ (Quiet (shared_queue movedFrom) s' →
        (∀ t c, s'.pc t = some c → c.op = .wait_and_pop ∧ c.place = .waiting) ∧
        (s'.waiters ≠ [] → s'.shared = [])) := by
  have hM := counting_shared_queue movedFrom
  have hsound := sound_of_reachable h
  have hawake := awake_of_reachable hM h
  obtain ⟨_, hthreads⟩ := hawake.covers
  refine ⟨_, fun as s' hrun =>
    ⟨length_le_work hM (workBound_shared_queue movedFrom rfl) hsound hawake hthreads.mem hrun, ?_⟩⟩
  intro hquiet
  have h' := h.leads ((System.leadsBy_of_runBy hrun).mono fun _ _ _ => trivial)
  obtain ⟨hasleep, hempty⟩ := (awake_of_reachable hM h').of_quiet (sound_of_reachable h') hquiet
  constructor
  · intro t c hpc
    obtain ⟨hplace, htakes⟩ := hasleep t c hpc
    refine ⟨?_, hplace⟩
    cases hop : c.op with
    | wait_and_pop => rfl
    | _ => simp [hop, takes] at htakes
  · intro hwaiters
    exact List.length_eq_zero_iff.mp (hempty hwaiters)

/-- Two sleepers, one item and one of them left. -/
theorem calls_return_two :
    ∃ s, (threads ℕ fun _ => 0).Reachable s ∧ s.waiters = [1, 2] ∧
      s.shared = [7] ∧ ∃ bound, ∀ as s',
      (threads ℕ fun _ => 0).runBy (fun _ a => a.proper) s as = some s' →
      as.length ≤ bound ∧ (Quiet (shared_queue fun _ => 0) s' →
        (∀ t c, s'.pc t = some c → c.op = .wait_and_pop ∧ c.place = .waiting) ∧
        (s'.waiters ≠ [] → s'.shared = [])) := by
  have hrun : ((threads ℕ fun _ => 0).runBy (fun _ _ => true)
      (Monitors.init []) [.call 1 .wait_and_pop, .run 1, .run 1, .call 2 .wait_and_pop, .run 2,
        .run 2, .call 0 (.push 7), .run 0, .run 0, .run 0]).any
      (fun s => decide (s.waiters = [1, 2]) && decide (s.shared = [7])) = true := by
    decide +kernel
  obtain ⟨s, hs, hend⟩ := System.exists_reachableBy rfl hrun
  simp only [Bool.and_eq_true, decide_eq_true_eq] at hend
  exact ⟨s, hs.reachable, hend.1, hend.2, calls_return hs.reachable⟩

end Threads
end SharedQueue
end G3log
