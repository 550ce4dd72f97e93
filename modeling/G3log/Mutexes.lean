import G3log.Flush

/-!
# The mutexes of the worker and its threads

`step` makes an access under a mutex in one step. Here it is taken apart: the thread locks
the mutex, makes the access and unlocks it, and after a `push` it wakes the thread that
waits for the queue. A fatal signal may stop a thread anywhere on this way, and what it
has locked then stays locked for ever. So a step of a thread may have to wait for one of

* `g_logging_init_mutex`, in `shutDownLogging`;
* the mutex of `setFatalPreLoggingHook`, on the way to `pushFatalMessageToLogger`;
* the mutex of a queue, in `push` and in `wait_and_pop`.

The destructor of an active object is entered in the step that drops its last reference,
and the mutex of its queue is locked in that step too: nobody else sees the queue before
it is unlocked. The locks inside the standard library are not part of the model.

## Main definitions

* `State.nextAccess`, `State.closes` -- what a thread is about to do under a mutex.
* `Locked`, `lockedStep`, `lockedWorker` -- the worker with its mutexes.
* `reachable_iff` -- it is the same worker.
* `Guarded`, `Undisturbed` -- who holds the mutexes, and who is still to wake whom.
* `Locked.halted_state` -- without such signals mutexes alone stop nobody.
-/

namespace G3log

open Transition

variable {T R : Type}

/-- The queue of an active object: the worker's, or that of a sink. -/
inductive QueueId
  | worker
  | sink (s : SinkId)
  deriving DecidableEq

inductive Mutex
  | g_logging_init_mutex
  /-- The static one in `setFatalPreLoggingHook`. -/
  | setFatalPreLoggingHook
  /-- Of a `shared_queue`. -/
  | m_ (q : QueueId)
  deriving DecidableEq

/-- What a thread does under a mutex. -/
inductive Access
  | shutDownLogging
  | setFatalPreLoggingHook
  | push (q : QueueId)
  | wait_and_pop (q : QueueId)
  deriving DecidableEq

def Access.mutex : Access → Mutex
  | .shutDownLogging => .g_logging_init_mutex
  | .setFatalPreLoggingHook => .setFatalPreLoggingHook
  | .push q | .wait_and_pop q => .m_ q

/-- How far a thread is with an access. -/
inductive AccessPc
  | outside
  /-- In `saveMessage` for a fatal event, where the hook is set next. -/
  | saveMessage
  /-- The mutex is locked, and the access is made next. -/
  | locked (acc : Access)
  /-- The access is made, and the mutex is unlocked next. -/
  | unlock (acc : Access)
  /-- In `push`, with the mutex unlocked. -/
  | notify_one (q : QueueId)
  /-- In `data_cond_.wait`, with the mutex unlocked. -/
  | wait (q : QueueId)
  deriving DecidableEq

namespace AccessPc

/-- The mutex that the thread has locked. -/
def holds : AccessPc → Option Mutex
  | .locked acc | .unlock acc => some acc.mutex
  | _ => none

/-- Inside an access, and not asleep in it. -/
def busy : AccessPc → Bool
  | .locked _ | .unlock _ | .notify_one _ => true
  | _ => false

/-- The thread is still to wake the one that waits for the queue. -/
def notifies (q : QueueId) : AccessPc → Bool
  | .unlock (.push q') | .notify_one q' => decide (q' = q)
  | _ => false

theorem holds_of_busy {pc : AccessPc} (h : pc.busy = false) : pc.holds = none := by
  cases pc with
  | locked | unlock | notify_one => simp [busy] at h
  | _ => rfl

theorem notifies_of_busy {pc : AccessPc} (h : pc.busy = false) (q : QueueId) :
    pc.notifies q = false := by
  cases pc with
  | locked | unlock | notify_one => simp [busy] at h
  | _ => rfl

end AccessPc

/-- Where the thread is once the mutex is unlocked. -/
def Access.left : Access → AccessPc
  | .push q => .notify_one q
  | _ => .outside

@[simp] theorem Access.holds_left (acc : Access) : acc.left.holds = none := by
  cases acc <;> rfl

@[simp] theorem Access.left_ne_locked (acc acc' : Access) : acc.left ≠ .locked acc' := by
  cases acc <;> simp [left]

@[simp] theorem Access.left_ne_wait (acc : Access) (q : QueueId) : acc.left ≠ .wait q := by
  cases acc <;> simp [left]

/-- In `saveMessage`, which comes before the test in `pushFatalMessageToLogger`. -/
def FatalPc.saves : FatalPc → Bool
  | .isLoggingInitialized _ => true
  | _ => false

namespace State

def queueEmpty (σ : State T R) : QueueId → Bool
  | .worker => σ._bg.mq_.isEmpty
  | .sink s => (σ.sinks s)._bg.mq_.isEmpty

/-- The access that is next in the program of the thread. -/
def nextAccess (σ : State T R) (t : Thread) : Option Access :=
  match σ.fatal t, t with
  | .send _, _ => some (.push .worker)
  | .none, .worker =>
      match σ.pc with
      | .run => if σ._bg.done_ then none else some (.wait_and_pop .worker)
      | .bgSave _ i | .bgFatal _ i => σ._sinks[i]?.map fun s => .push (.sink s)
      | .shutDownLogging _ => some .shutDownLogging
      | _ => none
  | .none, .sink s =>
      let bg := (σ.sinks s)._bg
      if (σ.sinks s).created && bg.func.isNone && !bg.done_ then some (.wait_and_pop (.sink s))
      else none
  | .none, .client c =>
      match (σ.clients c).pc with
      | .idle =>
          match (σ.clients c).program with
          -- `shutDownLoggingForActiveOnly`, the first thing in `~LogWorker`.
          | .destroy :: _ => if σ.destroying then none else some .shutDownLogging
          | _ => none
      | .save _ | .sendAdd _ | .sendClear => some (.push .worker)
      | .async s _ _ => some (.push (.sink s))
      | _ => none
  | _, _ => none

/-- The queue of the active object whose destructor the thread enters with its next step. -/
def closes (σ : State T R) (t : Thread) : Option QueueId :=
  match σ.fatal t, t with
  | .none, .worker =>
      match σ.pc, σ._sinks with
      | .clear _, s :: rest =>
          if { σ with _sinks := rest }.strong s then none else some (.sink s)
      | _, _ => none
  | .none, .client c =>
      match (σ.clients c).pc with
      | .release s _ =>
          if (σ.setSink s { σ.sinks s with temps := (σ.sinks s).temps.erase c }).strong s then none
          else some (.sink s)
      | .destroySinks =>
          match σ._sinks with
          | s :: rest => if { σ with _sinks := rest }.strong s then none else some (.sink s)
          | [] => none
      | .resetBg => some .worker
      | _ => none
  | _, _ => none

end State

/-- The worker and its threads, with the mutexes. -/
structure Locked (T R : Type) where
  state : State T R
  /-- The mutexes that are locked. -/
  held : Mutex → Bool
  access : Thread → AccessPc

/-- Who moves, and what the environment chooses. -/
inductive LockedAction
  /-- The thread takes its next step, or is hit by a signal. -/
  | step (a : Action)
  | lock (t : Thread)
  /-- The assignment in `setFatalPreLoggingHook`. -/
  | setFatalPreLoggingHook (t : Thread)
  /-- `data_cond_.wait`, which unlocks the mutex. -/
  | wait (t : Thread)
  | unlock (t : Thread)
  | notify_one (t : Thread)
  /-- A spurious wake-up. -/
  | wake (t : Thread)
  deriving DecidableEq

/-- The thread that moves, or is hit by a signal. -/
def LockedAction.thread : LockedAction → Thread
  | .step a => a.thread
  | .lock t | .setFatalPreLoggingHook t | .wait t | .unlock t | .notify_one t | .wake t => t

namespace Locked

/-- The mutex that the thread comes to lock, by the access it is for. -/
def wants (L : Locked T R) (t : Thread) : Option Access :=
  match L.access t with
  | .outside => L.state.nextAccess t
  | .saveMessage => some .setFatalPreLoggingHook
  | _ => none

/-- Go on to `pc`, with the mutex left locked or not. -/
def goto (t : Thread) (pc : AccessPc) (m : Mutex) (locked : Bool) (L : Locked T R) : Locked T R :=
  { L with
    held := Function.update L.held m locked
    access := Function.update L.access t pc }

def lock (t : Thread) (L : Locked T R) : Option (Locked T R) :=
  match L.wants t with
  | some acc => if L.held acc.mutex then none else some (L.goto t (.locked acc) acc.mutex true)
  | none => none

/-- A step of `step`. The mutex for it is locked before, or with the step. -/
def move (a : Action) (L : Locked T R) (σ : State T R) : Option (Locked T R) :=
  let t := a.thread
  let L' := { L with state := σ }
  match L.access t with
  | .outside =>
      match L.state.nextAccess t, L.state.closes t with
      | none, none =>
          let pc := if (σ.fatal t).saves then .saveMessage else .outside
          some { L' with access := Function.update L.access t pc }
      | none, some q =>
          if L.held (.m_ q) then none else some (L'.goto t (.unlock (.push q)) (.m_ q) true)
      | some _, _ => none
  | .locked acc =>
      if L.state.nextAccess t = some acc then some (L'.goto t (.unlock acc) acc.mutex true)
      else none
  | _ => none

/-- A thread that is hit by a signal does not come back to where it was. -/
def interrupt (t : Thread) (L : Locked T R) (σ : State T R) : Locked T R :=
  { L with state := σ, access := Function.update L.access t .outside }

def setHook (t : Thread) (L : Locked T R) : Option (Locked T R) :=
  match L.access t with
  | .locked .setFatalPreLoggingHook =>
      some { L with access := Function.update L.access t (.unlock .setFatalPreLoggingHook) }
  | _ => none

def wait (t : Thread) (L : Locked T R) : Option (Locked T R) :=
  match L.access t with
  | .locked (.wait_and_pop q) =>
      if L.state.queueEmpty q then some (L.goto t (.wait q) (.m_ q) false) else none
  | _ => none

def unlock (t : Thread) (L : Locked T R) : Option (Locked T R) :=
  match L.access t with
  | .unlock acc => some (L.goto t acc.left acc.mutex false)
  | _ => none

/-- Only the thread of the active object waits for its queue. -/
def notify_one (t : Thread) (L : Locked T R) : Option (Locked T R) :=
  match L.access t with
  | .notify_one q =>
      some { L with
        access := fun t' =>
          if t' = t ∨ L.access t' = .wait q then .outside else L.access t' }
  | _ => none

def wake (t : Thread) (L : Locked T R) : Option (Locked T R) :=
  match L.access t with
  | .wait _ => some { L with access := Function.update L.access t .outside }
  | _ => none

end Locked

/-- The step of an action, in a process that has not ended. -/
def lockedStep (L : Locked T R) (b : LockedAction) : Option (Locked T R) :=
  if L.state.exited then none
  else match b with
    | .step a =>
        match step L.state a, a with
        | some σ, .signal t _ => some (L.interrupt t σ)
        | some σ, _ => L.move a σ
        | none, _ => none
    | .lock t => L.lock t
    | .setFatalPreLoggingHook t => L.setHook t
    | .wait t => L.wait t
    | .unlock t => L.unlock t
    | .notify_one t => L.notify_one t
    | .wake t => L.wake t

/-- The worker with its mutexes and any clients. -/
def lockedWorker (T R : Type) : System (Locked T R) LockedAction where
  Start := fun L => ∃ programs active, L = ⟨init programs active, fun _ => false, fun _ => .outside⟩
  step := lockedStep

/-! ## What a step can do -/

inductive LockedStep (L : Locked T R) : LockedAction → Locked T R → Prop
  | signal {t : Thread} {msg : FatalMessage} {σ : State T R}
      (hs : step L.state (.signal t msg) = some σ) :
      LockedStep L (.step (.signal t msg)) (L.interrupt t σ)
  | plain {a : Action} {σ : State T R} (hs : step L.state a = some σ)
      (hpc : L.access a.thread = .outside) (hnext : L.state.nextAccess a.thread = none)
      (hcloses : L.state.closes a.thread = none) :
      LockedStep L (.step a) { L with
        state := σ
        access := Function.update L.access a.thread
          (if (σ.fatal a.thread).saves then .saveMessage else .outside) }
  | closes {a : Action} {σ : State T R} {q : QueueId} (hs : step L.state a = some σ)
      (hpc : L.access a.thread = .outside) (hnext : L.state.nextAccess a.thread = none)
      (hcloses : L.state.closes a.thread = some q) (hfree : L.held (.m_ q) = false) :
      LockedStep L (.step a)
        (Locked.goto a.thread (.unlock (.push q)) (.m_ q) true { L with state := σ })
  | access {a : Action} {σ : State T R} {acc : Access} (hs : step L.state a = some σ)
      (hpc : L.access a.thread = .locked acc) (hnext : L.state.nextAccess a.thread = some acc) :
      LockedStep L (.step a)
        (Locked.goto a.thread (.unlock acc) acc.mutex true { L with state := σ })
  | lock {t : Thread} {acc : Access} (hwants : L.wants t = some acc)
      (hfree : L.held acc.mutex = false) :
      LockedStep L (.lock t) (L.goto t (.locked acc) acc.mutex true)
  | setFatalPreLoggingHook {t : Thread} (hpc : L.access t = .locked .setFatalPreLoggingHook) :
      LockedStep L (.setFatalPreLoggingHook t)
        { L with access := Function.update L.access t (.unlock .setFatalPreLoggingHook) }
  | wait {t : Thread} {q : QueueId} (hpc : L.access t = .locked (.wait_and_pop q))
      (hempty : L.state.queueEmpty q = true) :
      LockedStep L (.wait t) (L.goto t (.wait q) (.m_ q) false)
  | unlock {t : Thread} {acc : Access} (hpc : L.access t = .unlock acc) :
      LockedStep L (.unlock t) (L.goto t acc.left acc.mutex false)
  | notify_one {t : Thread} {q : QueueId} (hpc : L.access t = .notify_one q) :
      LockedStep L (.notify_one t) { L with
        access := fun t' => if t' = t ∨ L.access t' = .wait q then .outside else L.access t' }
  | wake {t : Thread} {q : QueueId} (hpc : L.access t = .wait q) :
      LockedStep L (.wake t) { L with access := Function.update L.access t .outside }

theorem move_cases {L L' : Locked T R} {a : Action} {σ : State T R}
    (hs : step L.state a = some σ) (h : L.move a σ = some L') : LockedStep L (.step a) L' := by
  unfold Locked.move at h
  dsimp only at h
  split at h
  · next hpc =>
      split at h
      · next hnext hcloses => exact Option.some.inj h ▸ .plain hs hpc hnext hcloses
      · next hnext hcloses =>
          split at h
          · simp at h
          · next hfree =>
              exact Option.some.inj h ▸
                .closes hs hpc hnext hcloses (Bool.eq_false_of_not_eq_true hfree)
      · simp at h
  · next hpc =>
      split at h
      · next hnext => exact Option.some.inj h ▸ .access hs hpc hnext
      · simp at h
  · simp at h

theorem lockedStep_cases {L L' : Locked T R} {b : LockedAction} (h : lockedStep L b = some L') :
    LockedStep L b L' := by
  unfold lockedStep at h
  split at h
  · simp at h
  split at h
  · split at h
    · next hs => exact Option.some.inj h ▸ .signal hs
    · next hs _ => exact move_cases ‹_› h
    · simp at h
  · unfold Locked.lock at h
    split at h
    · next hwants =>
        split at h
        · simp at h
        · next hfree =>
            exact Option.some.inj h ▸ .lock hwants (Bool.eq_false_of_not_eq_true hfree)
    · simp at h
  · unfold Locked.setHook at h
    split at h
    · next hpc => exact Option.some.inj h ▸ .setFatalPreLoggingHook hpc
    · simp at h
  · unfold Locked.wait at h
    split at h
    · next hpc =>
        split at h
        · next hempty => exact Option.some.inj h ▸ .wait hpc hempty
        · simp at h
    · simp at h
  · unfold Locked.unlock at h
    split at h
    · next hpc => exact Option.some.inj h ▸ .unlock hpc
    · simp at h
  · unfold Locked.notify_one at h
    split at h
    · next hpc => exact Option.some.inj h ▸ .notify_one hpc
    · simp at h
  · unfold Locked.wake at h
    split at h
    · next hpc => exact Option.some.inj h ▸ .wake hpc
    · simp at h

/-- A step of a thread is one of the worker without mutexes, or does not show there. -/
theorem LockedStep.state {L L' : Locked T R} {b : LockedAction} (h : LockedStep L b L') :
    L'.state = L.state ∨ ∃ a, b = .step a ∧ step L.state a = some L'.state := by
  cases h with
  | signal hs | plain hs | closes hs | access hs => exact .inr ⟨_, rfl, hs⟩
  | _ => exact .inl rfl

namespace LockedStep
variable {L L' : Locked T R} {b : LockedAction}

/-- Another thread is as far with its access as it was, unless it is woken up. -/
theorem others (h : LockedStep L b L') {t : Thread} (ht : t ≠ b.thread) :
    L'.access t = L.access t ∨ (∃ q, L.access t = .wait q) ∧ L'.access t = .outside := by
  cases h with
  | @notify_one t₀ q hpc =>
      by_cases hwait : L.access t = .wait q
      · exact .inr ⟨⟨q, hwait⟩, by simp [hwait]⟩
      · have ht : t ≠ t₀ := ht
        exact .inl (by simp [ht, hwait])
  | _ => exact .inl (Function.update_of_ne ht _ _)

theorem others_of_inside (h : LockedStep L b L') {t : Thread} (ht : t ≠ b.thread)
    (hinside : L'.access t ≠ .outside) : L'.access t = L.access t :=
  (h.others ht).resolve_right fun hwoken => hinside hwoken.2

theorem others_of_awake (h : LockedStep L b L') {t : Thread} (ht : t ≠ b.thread)
    (hawake : ∀ q, L.access t ≠ .wait q) : L'.access t = L.access t :=
  (h.others ht).resolve_right fun ⟨⟨q, hwait⟩, _⟩ => hawake q hwait

/-- A mutex that is locked stays so until the thread that has locked it moves. -/
theorem held_of_held (h : LockedStep L b L') {m : Mutex} (hm : L.held m = true) :
    L'.held m = true ∨ (L.access b.thread).holds = some m := by
  have update {m' : Mutex} : Function.update L.held m' true m = true := by
    by_cases heq : m = m'
    · simp [heq]
    · simpa [heq] using hm
  have release {m' : Mutex} (hholds : (L.access b.thread).holds = some m') :
      Function.update L.held m' false m = true ∨ (L.access b.thread).holds = some m := by
    by_cases heq : m = m'
    · exact .inr (heq ▸ hholds)
    · exact .inl (by simpa [heq] using hm)
  cases h with
  | closes | access | lock => exact .inl update
  | wait hpc | unlock hpc => exact release (by simp only [LockedAction.thread, hpc]; rfl)
  | _ => exact .inl hm

/-- A thread locks a mutex that is free. -/
theorem free_of_holds (h : LockedStep L b L') {m : Mutex}
    (hm : (L'.access b.thread).holds = some m) :
    (L.access b.thread).holds = some m ∨ L.held m = false := by
  cases h with
  | signal => simp [Locked.interrupt, LockedAction.thread, Action.thread, AccessPc.holds] at hm
  | plain =>
      simp only [LockedAction.thread, Function.update_self] at hm
      split at hm <;> simp [AccessPc.holds] at hm
  | closes hs hpc hnext hcloses hfree =>
      obtain rfl : Mutex.m_ _ = m := by
        simpa [Locked.goto, LockedAction.thread, AccessPc.holds, Access.mutex] using hm
      exact .inr hfree
  | access hs hpc =>
      refine .inl ?_
      rw [← hm]
      simp [Locked.goto, LockedAction.thread, hpc, AccessPc.holds]
  | @lock t acc hwants hfree =>
      obtain rfl : acc.mutex = m := by
        simpa [Locked.goto, LockedAction.thread, AccessPc.holds] using hm
      exact .inr hfree
  | setFatalPreLoggingHook hpc =>
      refine .inl ?_
      rw [← hm]
      simp [LockedAction.thread, hpc, AccessPc.holds]
  | unlock => simp [Locked.goto, LockedAction.thread] at hm
  | _ => simp [Locked.goto, LockedAction.thread, AccessPc.holds] at hm

/-- A thread that has locked a mutex finds it locked. -/
theorem held_of_holds (h : LockedStep L b L') {m : Mutex}
    (hself : (L.access b.thread).holds = some m → L.held m = true)
    (hm : (L'.access b.thread).holds = some m) : L'.held m = true := by
  have update {pc : AccessPc} {m' : Mutex} (hpc : pc.holds = some m')
      (h : (Function.update L.access b.thread pc b.thread).holds = some m) :
      Function.update L.held m' true m = true := by
    obtain rfl : m' = m := by simpa [hpc] using h
    simp
  cases h with
  | closes | access | lock => exact update rfl hm
  | setFatalPreLoggingHook hpc =>
      refine hself ?_
      rw [← hm]
      simp [LockedAction.thread, hpc, AccessPc.holds]
  | plain =>
      simp only [LockedAction.thread, Function.update_self] at hm
      split at hm <;> simp [AccessPc.holds] at hm
  | signal => simp [Locked.interrupt, LockedAction.thread, Action.thread, AccessPc.holds] at hm
  | unlock => simp [Locked.goto, LockedAction.thread] at hm
  | _ => simp [Locked.goto, LockedAction.thread, AccessPc.holds] at hm

/-- With a mutex locked for an access, the thread has just come to lock it. -/
theorem of_locked (h : LockedStep L b L') {acc : Access}
    (hacc : L'.access b.thread = .locked acc) :
    L'.state = L.state ∧ L.wants b.thread = some acc := by
  cases h with
  | lock hwants =>
      obtain rfl : _ = acc := by simpa [Locked.goto, LockedAction.thread] using hacc
      exact ⟨rfl, hwants⟩
  | plain =>
      simp only [LockedAction.thread, Function.update_self] at hacc
      split at hacc <;> simp at hacc
  | signal => simp [Locked.interrupt, LockedAction.thread, Action.thread] at hacc
  | _ => simp [Locked.goto, LockedAction.thread] at hacc

/-- A thread that waits for a queue has just locked it and found it empty. -/
theorem of_wait (h : LockedStep L b L') {q : QueueId} (hq : L'.access b.thread = .wait q) :
    L'.state = L.state ∧ L.access b.thread = .locked (.wait_and_pop q) ∧
      L.state.queueEmpty q = true := by
  cases h with
  | wait hpc hempty =>
      obtain rfl : _ = q := by simpa [Locked.goto, LockedAction.thread] using hq
      exact ⟨rfl, hpc, hempty⟩
  | plain =>
      simp only [LockedAction.thread, Function.update_self] at hq
      split at hq <;> simp at hq
  | signal => simp [Locked.interrupt, LockedAction.thread, Action.thread] at hq
  | _ => simp [Locked.goto, LockedAction.thread] at hq

end LockedStep

/-! ## The access that is next -/

/-- What the worker does next, nobody else changes. -/
theorem Step.worker_frame {σ σ' : State T R} {a : Action} (hs : Step σ a σ')
    (ha : a.thread ≠ .worker) : σ'.pc = σ.pc ∧ σ'._bg.done_ = σ._bg.done_ ∧
      (σ'._sinks = σ._sinks ∨ ∃ c, (σ.clients c).pc = .destroySinks) := by
  cases hs with
  | @client c _ _ _ hs =>
      refine ⟨hs.worker_eq.1, by cases hs <;> rfl, ?_⟩
      by_cases hpc : (σ.clients c).pc = .destroySinks
      · exact .inr ⟨c, hpc⟩
      · exact .inl (hs.vector_eq hpc)
  | worker => exact absurd rfl ha
  | sink _ hs => cases hs <;> exact ⟨rfl, rfl, .inl rfl⟩
  | fatal hs => cases hs <;> exact ⟨rfl, rfl, .inl rfl⟩
  | signal | raise | fault => exact ⟨rfl, rfl, .inl rfl⟩

/-- What the thread of a sink does next, nobody else changes. -/
theorem Step.sink_frame {σ σ' : State T R} {a : Action} (hs : Step σ a σ') {s : SinkId}
    (ha : a.thread ≠ .sink s) (hcreated : (σ.sinks s).created = true) :
    (σ'.sinks s).created = true ∧ (σ'.sinks s)._bg.func = (σ.sinks s)._bg.func ∧
      (σ'.sinks s)._bg.done_ = (σ.sinks s)._bg.done_ := by
  have update {s' : SinkId} {k : Sink T R} (hk : k.created = (σ.sinks s').created ∧
      k._bg.func = (σ.sinks s')._bg.func ∧ k._bg.done_ = (σ.sinks s')._bg.done_) :
      (Function.update σ.sinks s' k s).created = true ∧
        (Function.update σ.sinks s' k s)._bg.func = (σ.sinks s)._bg.func ∧
          (Function.update σ.sinks s' k s)._bg.done_ = (σ.sinks s)._bg.done_ := by
    by_cases hs : s = s'
    · subst hs; simpa [hcreated] using hk
    · simp [hs, hcreated]
  cases hs with
  | @client c fresh _ _ hs =>
      cases hs with
      | make hpc hprogram hfresh =>
          have hne : s ≠ fresh := by
            rintro rfl
            simp [hcreated] at hfresh
          simp [hne, hcreated]
      | lock | async | releaseLast | destroyLast => exact update ⟨rfl, rfl, rfl⟩
      | releaseShared => rw [sinks_release]; exact update ⟨rfl, rfl, rfl⟩
      | join => rw [sinks_destroySink_release]; exact update ⟨rfl, rfl, rfl⟩
      | _ => exact ⟨hcreated, rfl, rfl⟩
  | worker _ hs =>
      cases hs with
      | bgSave | bgFatal | clearLast | join => exact update ⟨rfl, rfl, rfl⟩
      | _ => exact ⟨hcreated, rfl, rfl⟩
  | @sink s' _ _ hs =>
      have hne : s ≠ s' := by
        rintro rfl
        exact ha rfl
      cases hs <;> simp [hne, hcreated]
  | fatal hs => cases hs <;> exact ⟨hcreated, rfl, rfl⟩
  | signal | raise | fault => exact ⟨hcreated, rfl, rfl⟩

/-- The destructor begins with `shutDownLogging`. -/
theorem Step.destroying_eq {σ σ' : State T R} {a : Action} (hs : Step σ a σ') :
    σ'.destroying = σ.destroying ∨ ∃ c fresh, a = .client c fresh ∧
      σ.nextAccess (.client c) = some .shutDownLogging := by
  cases hs with
  | @client c fresh _ hfatal hs =>
      cases hs with
      | destroy hpc hprogram hfirst =>
          exact .inr ⟨c, fresh, rfl, by simp [State.nextAccess, hfatal, hpc, hprogram, hfirst]⟩
      | _ => exact .inl rfl
  | worker _ hs => cases hs <;> exact .inl rfl
  | sink _ hs => cases hs <;> exact .inl rfl
  | fatal hs => cases hs <;> exact .inl rfl
  | signal | raise | fault => exact .inl rfl

/-- When the vector is destroyed, the thread of the worker is at its end. -/
theorem done_of_destroySinks {σ : State T R} (ho : Owned σ) (hsd : Shutdown σ) {c : ClientId}
    (hpc : (σ.clients c).pc = .destroySinks) : σ._bg.done_ = true ∧ σ.pc = .run := by
  have hfinished := ho.registered.deleted (hsd.deleted c (by rw [hpc]; rfl))
  have hdone := ho.worker.sound.done_of_finished hfinished
  refine ⟨hdone, ?_⟩
  have hfunc := ho.worker.func
  rw [ho.worker.sound.func_of_done hdone] at hfunc
  cases hrun : σ.pc with
  | run => rfl
  | clear fatal | join s fatal => cases fatal <;> simp [hrun, WorkerPc.func] at hfunc
  | _ => simp [hrun, WorkerPc.func] at hfunc

/-- A thread that is about to make an access still is after a step of another one. -/
theorem Step.nextAccess_eq {σ σ' : State T R} {a : Action} (hs : Step σ a σ') (ho : Owned σ)
    (hsd : Shutdown σ) {t : Thread} (ht : a.thread ≠ t) {acc : Access}
    (hacc : σ.nextAccess t = some acc)
    (hdes : acc = .shutDownLogging → σ'.destroying = σ.destroying) :
    σ'.nextAccess t = some acc := by
  have hfatal := hs.fatal_eq ht
  unfold State.nextAccess at hacc ⊢
  rw [hfatal]
  split at hacc
  · exact hacc
  · next hnone =>
      obtain ⟨hpc, hdone, hsinks⟩ := hs.worker_frame ht
      rw [hpc, hdone]
      rcases hsinks with hsinks | ⟨c, hc⟩
      · rwa [hsinks]
      · obtain ⟨hdone', hrun⟩ := done_of_destroySinks ho hsd hc
        simp [hrun, hdone'] at hacc
  · next s hnone =>
      dsimp only at hacc ⊢
      split at hacc
      · next hcond =>
          simp only [Bool.and_eq_true] at hcond
          obtain ⟨hcreated, hfunc, hdone⟩ := hs.sink_frame ht hcond.1.1
          rw [hcreated, hfunc, hdone]
          simpa [hcond.1.2, hcond.2] using hacc
      · simp at hacc
  · next c hnone =>
      have hclient := hs.clients_eq (c := c) (by
        intro hmover
        cases a <;> simp [Action.mover, Action.thread] at hmover ht
        exact ht hmover)
      rw [hclient]
      split at hacc
      · split at hacc
        · split at hacc
          · simp at hacc
          · next hd =>
              rw [hdes (Option.some.inj hacc).symm]
              simpa [hd] using hacc
        · simp at hacc
      all_goals assumption
  · simp at hacc

/-- With its mutexes the worker does nothing that it does not do without, by steps that meet
the same condition. -/
theorem state_reachableBy {Ok : State T R → Action → Prop} {L : Locked T R}
    (h : (lockedWorker T R).ReachableBy (fun L b => ∀ a, b = .step a → Ok L.state a) L) :
    (logWorker T R).ReachableBy Ok L.state := by
  refine h.refinesBy ?_ fun L b L' _ hok hs => ?_
  · rintro _ ⟨programs, active, rfl⟩
    exact ⟨programs, active, rfl⟩
  · rcases (lockedStep_cases hs).state with heq | ⟨a, rfl, ha⟩
    · exact .inl heq
    · exact .inr ⟨a, hok a rfl, ha⟩

theorem state_reachable {L : Locked T R} (h : (lockedWorker T R).Reachable L) :
    (logWorker T R).Reachable L.state :=
  state_reachableBy (h.mono fun _ _ _ _ _ => trivial)

/-! ## Who holds the mutexes -/

/-- A mutex is locked by one thread, for the access that is next in its program. -/
structure Guarded (L : Locked T R) : Prop where
  held : ∀ t m, (L.access t).holds = some m → L.held m = true
  unique : ∀ t t' m, (L.access t).holds = some m → (L.access t').holds = some m → t' = t
  locked : ∀ t acc, L.access t = .locked acc →
    acc = .setFatalPreLoggingHook ∨ L.state.nextAccess t = some acc
  wait : ∀ t q, L.access t = .wait q → L.state.nextAccess t = some (.wait_and_pop q)

namespace Guarded
variable {L L' : Locked T R} {b : LockedAction}

theorem holds_others (hs : LockedStep L b L') {t : Thread} (ht : t ≠ b.thread) {m : Mutex}
    (hm : (L'.access t).holds = some m) : (L.access t).holds = some m := by
  rwa [hs.others_of_inside ht (by rintro hout; simp [hout, AccessPc.holds] at hm)] at hm

/-- The access of another thread is still the next one in its program. -/
theorem nextAccess_others (h : Guarded L) (hr : (logWorker T R).Reachable L.state)
    (hs : LockedStep L b L') {t : Thread} (ht : t ≠ b.thread) {acc : Access}
    (hacc : L.state.nextAccess t = some acc)
    (hheld : acc = .shutDownLogging → (L.access t).holds = some acc.mutex) :
    L'.state.nextAccess t = some acc := by
  rcases hs.state with heq | ⟨a, rfl, ha⟩
  · rwa [heq]
  · have hstep := (step_cases ha).2
    refine hstep.nextAccess_eq (owned hr) (shutdown hr) (Ne.symm ht) hacc fun hshut => ?_
    rcases hstep.destroying_eq with heq | ⟨c, fresh, rfl, hnext⟩
    · exact heq
    · -- It would begin with the mutex of `shutDownLogging`, which the other thread holds.
      cases hs with
      | plain _ _ hnone | closes _ _ hnone =>
          rw [show Action.thread (.client c fresh) = .client c from rfl, hnext] at hnone
          simp at hnone
      | access _ hpc hacc' =>
          obtain rfl := Option.some.inj (hnext.symm.trans hacc')
          obtain rfl := hshut
          have hholds : (L.access (.client c)).holds = some .g_logging_init_mutex := by
            rw [show L.access (.client c) = _ from hpc]
            rfl
          exact absurd (h.unique _ _ _ hholds (hheld rfl)) ht

theorem step (h : Guarded L) (hr : (logWorker T R).Reachable L.state) (hs : LockedStep L b L') :
    Guarded L' where
  held := by
    intro t m hm
    by_cases ht : t = b.thread
    · subst ht
      exact hs.held_of_holds (h.held _ m) hm
    · have hold := holds_others hs ht hm
      exact (hs.held_of_held (h.held t m hold)).resolve_right fun hb => ht (h.unique _ _ _ hb hold)
  unique := by
    intro t t' m hm hm'
    by_cases ht : t = b.thread
    · by_cases ht' : t' = b.thread
      · rw [ht, ht']
      · subst ht
        have hold' := holds_others hs ht' hm'
        rcases hs.free_of_holds hm with hold | hfree
        · exact h.unique _ _ _ hold hold'
        · simp [h.held _ _ hold'] at hfree
    · have hold := holds_others hs ht hm
      by_cases ht' : t' = b.thread
      · subst ht'
        rcases hs.free_of_holds hm' with hold' | hfree
        · exact h.unique _ _ _ hold hold'
        · simp [h.held _ _ hold] at hfree
      · exact h.unique _ _ _ hold (holds_others hs ht' hm')
  locked := by
    intro t acc hacc
    by_cases ht : t = b.thread
    · subst ht
      obtain ⟨hstate, hwants⟩ := hs.of_locked hacc
      rw [hstate]
      unfold Locked.wants at hwants
      split at hwants
      · exact .inr hwants
      · exact .inl (Option.some.inj hwants).symm
      · simp at hwants
    · have hold : L.access t = .locked acc := by
        rwa [hs.others_of_inside ht (by simp [hacc])] at hacc
      refine (h.locked t acc hold).imp_right fun hnext => ?_
      exact h.nextAccess_others hr hs ht hnext fun _ => by rw [hold]; rfl
  wait := by
    intro t q hq
    by_cases ht : t = b.thread
    · subst ht
      obtain ⟨hstate, hpc, -⟩ := hs.of_wait hq
      rw [hstate]
      exact (h.locked _ _ hpc).resolve_left (by simp)
    · have hold : L.access t = .wait q := by
        rwa [hs.others_of_inside ht (by simp [hq])] at hq
      exact h.nextAccess_others hr hs ht (h.wait t q hold) nofun

end Guarded

theorem guarded {L : Locked T R} (h : (lockedWorker T R).Reachable L) : Guarded L := by
  refine h.invariant ?_ fun L b L' hr _ hL hs => hL.step (state_reachable hr) (lockedStep_cases hs)
  rintro _ ⟨programs, active, rfl⟩
  exact ⟨by simp [AccessPc.holds], by simp [AccessPc.holds], nofun, nofun⟩

/-! ## Nobody is stopped inside an access -/

theorem Sink.empty_turn {k k' : Sink T R} {out : Option (CallId × R)}
    (h : k.turn = some (k', out)) (hempty : k._bg.mq_ = []) : k'._bg.mq_ = [] := by
  unfold turn at h
  split at h
  · split at h
    all_goals
      obtain ⟨bg, hbg, heq⟩ := Option.map_eq_some_iff.mp h
      obtain ⟨rfl, -⟩ := Prod.mk.inj heq
    · obtain ⟨-, -, -, rfl⟩ := Active.exit_eq_some hbg
      exact hempty
    · obtain ⟨c, rest, -, -, hmq, rfl⟩ := Active.pop_eq_some hbg
      simp [hempty] at hmq
  · obtain ⟨rfl, -⟩ := Prod.mk.inj (Option.some.inj h)
    exact hempty
  · obtain ⟨real_sink, -, heq⟩ := Option.map_eq_some_iff.mp h
    obtain ⟨rfl, -⟩ := Prod.mk.inj heq
    exact hempty

/-- The thread is about to push, or to enter the destructor that does. -/
def State.pushes (σ : State T R) (t : Thread) (q : QueueId) : Prop :=
  σ.nextAccess t = some (.push q) ∨ σ.closes t = some q

/-- The queue of the worker is filled by a thread that is about to push. -/
theorem Step.bg_empty {σ σ' : State T R} {a : Action} (hs : Step σ a σ') (hempty : σ._bg.mq_ = []) :
    σ'._bg.mq_ = [] ∨ σ.pushes a.thread .worker := by
  cases hs with
  | client hfatal hs =>
      cases hs with
      | sendSave hpc | sendAdd hpc | sendClear hpc =>
          exact .inr (.inl (by simp [State.nextAccess, Action.thread, hfatal, hpc]))
      | resetBg hpc => exact .inr (.inr (by simp [State.closes, Action.thread, hfatal, hpc]))
      | _ => exact .inl hempty
  | worker _ hs =>
      cases hs with
      | exit _ hexit =>
          obtain ⟨-, -, -, rfl⟩ := Active.exit_eq_some hexit
          exact .inl hempty
      | pop _ hpop =>
          obtain ⟨c, rest, -, -, hmq, -⟩ := Active.pop_eq_some hpop
          simp [hempty] at hmq
      | _ => exact .inl hempty
  | sink _ hs => cases hs <;> exact .inl hempty
  | fatal hs =>
      cases hs with
      | send hpc => exact .inr (.inl (by simp [State.nextAccess, Action.thread, hpc]))
      | _ => exact .inl hempty
  | signal | raise | fault => exact .inl hempty

/-- The queue of a sink is filled by a thread that is about to push, or to enter `~Sink`. -/
theorem Step.sink_empty {σ σ' : State T R} {a : Action} (hs : Step σ a σ') {s : SinkId}
    (hempty : (σ.sinks s)._bg.mq_ = []) :
    (σ'.sinks s)._bg.mq_ = [] ∨ σ.pushes a.thread (.sink s) := by
  have update {s' : SinkId} {k : Sink T R}
      (hk : s = s' → k._bg.mq_ = [] ∨ σ.pushes a.thread (.sink s')) :
      (Function.update σ.sinks s' k s)._bg.mq_ = [] ∨ σ.pushes a.thread (.sink s) := by
    by_cases hs : s = s'
    · subst hs; simpa using hk rfl
    · exact .inl (by simpa [hs] using hempty)
  cases hs with
  | client hfatal hs =>
      cases hs with
      | make => exact update fun _ => .inl rfl
      | lock => exact update fun heq => .inl (heq ▸ hempty)
      | async hpc =>
          exact update fun _ => .inr (.inl (by
            simp [State.nextAccess, Action.thread, hfatal, hpc]))
      | releaseShared =>
          rw [sinks_release]
          exact update fun heq => .inl (heq ▸ hempty)
      | releaseLast hpc hstrong =>
          exact update fun _ => .inr (.inr (by
            simpa [State.closes, Action.thread, hfatal, hpc, State.strong] using hstrong))
      | join =>
          rw [sinks_destroySink_release]
          exact update fun heq => .inl (heq ▸ hempty)
      | destroyLast hpc hsinks hstrong =>
          exact update fun _ => .inr (.inr (by
            simp [State.closes, Action.thread, hfatal, hpc, hsinks, hstrong]))
      | _ => exact .inl hempty
  | worker hfatal hs =>
      cases hs with
      | bgSave hpc hget | bgFatal hpc hget =>
          exact update fun _ => .inr (.inl (by
            simp [State.nextAccess, Action.thread, hfatal, hpc, hget]))
      | clearLast hpc hsinks hstrong =>
          exact update fun _ => .inr (.inr (by
            simpa [State.closes, Action.thread, hfatal, hpc, hsinks, State.strong] using hstrong))
      | join => exact update fun heq => .inl (heq ▸ hempty)
      | _ => exact .inl hempty
  | sink _ hs =>
      cases hs with
      | turn _ hturn | value _ hturn =>
          exact update fun heq => .inl (Sink.empty_turn hturn (heq ▸ hempty))
  | fatal hs => cases hs <;> exact .inl hempty
  | signal | raise | fault => exact .inl hempty

/-- No destructor is entered with an access that is next anyway. -/
theorem State.closes_eq_none {σ : State T R} {t : Thread} {acc : Access}
    (h : σ.nextAccess t = some acc) : σ.closes t = none := by
  unfold nextAccess at h
  unfold closes
  split at h
  · next hfatal => simp [hfatal]
  · next hfatal =>
      rw [hfatal]
      cases hpc : σ.pc <;> simp [hpc] at h ⊢
  · next hfatal => simp [hfatal]
  · next c hfatal =>
      rw [hfatal]
      cases hpc : (σ.clients c).pc <;> simp [hpc] at h ⊢
  · simp at h

theorem Step.queueEmpty {σ σ' : State T R} {a : Action} (hs : Step σ a σ') {q : QueueId}
    (hempty : σ.queueEmpty q = true) : σ'.queueEmpty q = true ∨ σ.pushes a.thread q := by
  cases q with
  | worker => simpa [State.queueEmpty] using hs.bg_empty (by simpa [State.queueEmpty] using hempty)
  | sink s =>
      simpa [State.queueEmpty] using hs.sink_empty (by simpa [State.queueEmpty] using hempty)

/-- No signal stops a thread inside an access. -/
def Locked.undisturbed (L : Locked T R) (b : LockedAction) : Prop :=
  ∀ t msg, b = .step (.signal t msg) → (L.access t).busy = false

/-- Whoever has locked a mutex unlocks it, and whoever has filled a queue wakes its thread. -/
structure Undisturbed (L : Locked T R) : Prop where
  held : ∀ m, L.held m = true → ∃ t, (L.access t).holds = some m
  wait : ∀ t q, L.access t = .wait q →
    L.state.queueEmpty q = true ∨ ∃ t', (L.access t').notifies q = true

namespace LockedStep
variable {L L' : Locked T R} {b : LockedAction}

/-- A mutex that is locked is held by the thread that moves, or was not held by it. -/
theorem holder (h : LockedStep L b L') (hok : L.undisturbed b) {m : Mutex}
    (hm : L'.held m = true) : (L'.access b.thread).holds = some m ∨
      L.held m = true ∧ (L.access b.thread).holds ≠ some m := by
  have take {pc pc' : AccessPc} {m' : Mutex} (hpc : L.access b.thread = pc)
      (hpc' : pc'.holds = some m') (hnot : m' ≠ m → pc.holds ≠ some m)
      (hm : Function.update L.held m' true m = true) :
      (Function.update L.access b.thread pc' b.thread).holds = some m ∨
        L.held m = true ∧ (L.access b.thread).holds ≠ some m := by
    by_cases heq : m' = m
    · exact .inl (by simp [hpc', heq])
    · exact .inr ⟨by simpa [Ne.symm heq] using hm, by rw [hpc]; exact hnot heq⟩
  have release {pc : AccessPc} {m' : Mutex} (hpc : L.access b.thread = pc)
      (hholds : pc.holds = some m') (hm : Function.update L.held m' false m = true) :
      L.held m = true ∧ (L.access b.thread).holds ≠ some m := by
    by_cases heq : m' = m
    · simp [heq] at hm
    · exact ⟨by simpa [Ne.symm heq] using hm, by simpa [hpc, hholds] using heq⟩
  cases h with
  | @signal t =>
      have hnone : (L.access t).holds = none := AccessPc.holds_of_busy (hok _ _ rfl)
      exact .inr ⟨hm, by simp [LockedAction.thread, Action.thread, hnone]⟩
  | plain _ hpc => exact .inr ⟨hm, by simp only [LockedAction.thread, hpc]; simp [AccessPc.holds]⟩
  | closes _ hpc => exact take hpc rfl (fun _ => by simp [AccessPc.holds]) hm
  | @access a σ acc _ hpc => exact take hpc rfl (fun hne => by simpa [AccessPc.holds] using hne) hm
  | @lock t acc hwants =>
      refine take rfl rfl (fun _ hholds => ?_) hm
      unfold Locked.wants at hwants
      split at hwants
      · next hpc => simp [LockedAction.thread, hpc, AccessPc.holds] at hholds
      · next hpc => simp [LockedAction.thread, hpc, AccessPc.holds] at hholds
      · simp at hwants
  | setFatalPreLoggingHook hpc =>
      by_cases heq : Mutex.setFatalPreLoggingHook = m
      · exact .inl (by simp [LockedAction.thread, AccessPc.holds, Access.mutex, heq])
      · exact .inr ⟨hm, by simpa [LockedAction.thread, hpc, AccessPc.holds, Access.mutex] using heq⟩
  | wait hpc => exact .inr (release hpc rfl hm)
  | unlock hpc => exact .inr (release hpc rfl hm)
  | notify_one hpc | wake hpc =>
      exact .inr ⟨hm, by simp [LockedAction.thread, hpc, AccessPc.holds]⟩

/-- A thread that is to wake the one at a queue comes to do so. -/
theorem notifies (h : LockedStep L b L') (hok : L.undisturbed b) {q : QueueId}
    (hq : (L.access b.thread).notifies q = true) :
    (L'.access b.thread).notifies q = true ∨ ∀ t, L'.access t ≠ .wait q := by
  have absurd_of {pc : AccessPc} (hpc : L.access b.thread = pc) (hnot : pc.notifies q = false) :
      (L'.access b.thread).notifies q = true ∨ ∀ t, L'.access t ≠ .wait q := by
    simp [hpc, hnot] at hq
  cases h with
  | signal => exact absurd_of rfl (AccessPc.notifies_of_busy (hok _ _ rfl) q)
  | plain _ hpc | closes _ hpc => exact absurd_of hpc rfl
  | access _ hpc | setFatalPreLoggingHook hpc | wait hpc | wake hpc => exact absurd_of hpc rfl
  | lock hwants =>
      unfold Locked.wants at hwants
      split at hwants
      · next hpc => exact absurd_of hpc rfl
      · next hpc => exact absurd_of hpc rfl
      · simp at hwants
  | @unlock t acc hpc =>
      simp only [LockedAction.thread, hpc] at hq
      cases acc with
      | push q' =>
          exact .inl (by simpa [Locked.goto, LockedAction.thread, Access.left, AccessPc.notifies]
            using hq)
      | _ => simp [AccessPc.notifies] at hq
  | @notify_one t q' hpc =>
      simp only [LockedAction.thread, hpc, AccessPc.notifies, decide_eq_true_eq] at hq
      subst hq
      refine .inr fun t' => ?_
      dsimp only
      split
      · simp
      · next hnot => exact fun hwait => hnot (.inr hwait)

/-- A thread that fills a queue is to wake the one that waits for it. -/
theorem queueEmpty (h : LockedStep L b L') {q : QueueId} (hempty : L.state.queueEmpty q = true) :
    L'.state.queueEmpty q = true ∨ (L'.access b.thread).notifies q = true := by
  cases h with
  | signal hs =>
      cases (step_cases hs).2 with
      | signal => exact .inl (by cases q <;> exact hempty)
  | plain hs hpc hnext hcloses =>
      refine .inl (((step_cases hs).2.queueEmpty hempty).resolve_right ?_)
      simp [State.pushes, hnext, hcloses]
  | @closes a σ q' hs hpc hnext hcloses =>
      refine ((step_cases hs).2.queueEmpty hempty).imp_right fun hpush => ?_
      obtain rfl : q' = q := by simpa [State.pushes, hnext, hcloses] using hpush
      simp [Locked.goto, LockedAction.thread, AccessPc.notifies]
  | @access a σ acc hs hpc hnext =>
      refine ((step_cases hs).2.queueEmpty hempty).imp_right fun hpush => ?_
      rcases hpush with hpush | hpush
      · obtain rfl : acc = .push q := Option.some.inj (hnext.symm.trans hpush)
        simp [Locked.goto, LockedAction.thread, AccessPc.notifies]
      · simp [State.closes_eq_none hnext] at hpush
  | _ => exact .inl hempty

end LockedStep

namespace Undisturbed
variable {L L' : Locked T R} {b : LockedAction}

theorem step (h : Undisturbed L) (hok : L.undisturbed b) (hs : LockedStep L b L') :
    Undisturbed L' where
  held := by
    intro m hm
    rcases hs.holder hok hm with hb | ⟨hold, hnot⟩
    · exact ⟨_, hb⟩
    · obtain ⟨t, ht⟩ := h.held m hold
      have hne : t ≠ b.thread := by
        rintro rfl
        exact hnot ht
      have hawake (q : QueueId) : L.access t ≠ .wait q := by
        intro hwait
        simp [hwait, AccessPc.holds] at ht
      exact ⟨t, by rwa [hs.others_of_awake hne hawake]⟩
  wait := by
    intro t q hq
    by_cases ht : t = b.thread
    · subst ht
      obtain ⟨hstate, -, hempty⟩ := hs.of_wait hq
      exact .inl (hstate ▸ hempty)
    · have hold : L.access t = .wait q := by
        rwa [hs.others_of_inside ht (by simp [hq])] at hq
      rcases h.wait t q hold with hempty | ⟨t', ht'⟩
      · exact (hs.queueEmpty hempty).imp_right fun hb => ⟨_, hb⟩
      · refine .inr ?_
        by_cases hne : t' = b.thread
        · subst hne
          exact ⟨_, (hs.notifies hok ht').resolve_right fun hnone => hnone t hq⟩
        · have hawake (q' : QueueId) : L.access t' ≠ .wait q' := by
            intro hwait
            simp [hwait, AccessPc.notifies] at ht'
          exact ⟨t', by rwa [hs.others_of_awake hne hawake]⟩

end Undisturbed

theorem undisturbed {L : Locked T R} (h : (lockedWorker T R).ReachableBy Locked.undisturbed L) :
    Undisturbed L := by
  refine h.invariant ?_ fun L b L' _ hok hL hs => hL.step hok (lockedStep_cases hs)
  rintro _ ⟨programs, active, rfl⟩
  exact ⟨nofun, nofun⟩

/-! ## Waiting for a mutex -/

/-- The step is one that a thread takes by itself. -/
def LockedAction.ofThread : LockedAction → Bool
  | .step a => a.ofThread
  | .wake _ => false
  | _ => true

/-- The next step of a thread. -/
def State.actionOf (σ : State T R) (t : Thread) : Action :=
  match σ.fatal t, t with
  | .none, .client c => .client c 0
  | .none, .worker => .worker
  | .none, .sink s => .sink s
  | _, _ => .fatal t

@[simp] theorem State.thread_actionOf (σ : State T R) (t : Thread) :
    (σ.actionOf t).thread = t := by
  unfold State.actionOf
  split <;> rfl

@[simp] theorem State.ofThread_actionOf (σ : State T R) (t : Thread) :
    (σ.actionOf t).ofThread = true := by
  unfold State.actionOf
  split <;> rfl

/-- A thread that has its mutex can make the access, unless it is to take from an empty
queue. -/
theorem isSome_step_of_nextAccess {σ : State T R} (ho : Owned σ) (hexited : σ.exited = false)
    {t : Thread} {acc : Access} (hacc : σ.nextAccess t = some acc)
    (hempty : ∀ q, acc = .wait_and_pop q → σ.queueEmpty q = false) :
    (step σ (σ.actionOf t)).isSome := by
  unfold State.nextAccess at hacc
  unfold State.actionOf
  split at hacc
  · next hfatal => simp [hfatal, step, hexited, State.fatalStep]
  · next hfatal =>
      simp only [hfatal, step, hexited, Bool.false_eq_true, if_false, if_true]
      unfold State.workerStep
      split at hacc
      · next hpc =>
          split at hacc
          · simp at hacc
          · next hdone =>
              have hdone := Bool.eq_false_of_not_eq_true hdone
              have hfunc : σ._bg.func = none := by rw [ho.worker.func, hpc]; rfl
              have hmq : σ._bg.mq_ ≠ [] := by
                simpa [State.queueEmpty] using hempty _ (Option.some.inj hacc).symm
              simpa [hpc, hdone] using Active.isSome_pop hfunc hdone hmq
      · next hpc =>
          obtain ⟨s, hs, -⟩ := Option.map_eq_some_iff.mp hacc
          simp [hpc, hs]
      · next hpc =>
          obtain ⟨s, hs, -⟩ := Option.map_eq_some_iff.mp hacc
          simp [hpc, hs]
      · next hpc => simp [hpc]
      · simp at hacc
  · next s hfatal =>
      simp only [hfatal, step, hexited, Bool.false_eq_true, if_false, if_true]
      dsimp only at hacc
      split at hacc
      · next hcond =>
          simp only [Bool.and_eq_true, Option.isNone_iff_eq_none, Bool.not_eq_true'] at hcond
          obtain ⟨⟨hcreated, hfunc⟩, hdone⟩ := hcond
          have hmq : (σ.sinks s)._bg.mq_ ≠ [] := by
            simpa [State.queueEmpty] using hempty _ (Option.some.inj hacc).symm
          have hpop := Active.isSome_pop hfunc hdone hmq
          simpa [State.sinkStep, Sink.turn, hcreated, hfunc, hdone] using hpop
      · simp at hacc
  · next c hfatal =>
      simp only [hfatal, step, hexited, Bool.false_eq_true, if_false, if_true]
      unfold State.clientStep
      split at hacc
      · next hpc =>
          split at hacc
          · next hprogram =>
              split at hacc
              · simp at hacc
              · next hdes => simp [hpc, hprogram, State.start, hdes]
          · simp at hacc
      · next hpc => simp [hpc]
      · next hpc => simp [hpc]
      · next hpc => simp [hpc]
      · next hpc => simp [hpc]
      · simp at hacc
  · simp at hacc

/-- Only the thread of an active object takes from its queue, between two callbacks. -/
theorem nextAccess_pop {σ : State T R} {t : Thread} {q : QueueId}
    (hacc : σ.nextAccess t = some (.wait_and_pop q)) : σ.fatal t = .none ∧
      (t = .worker ∧ q = .worker ∧ σ.pc = .run ∧ σ._bg.done_ = false ∨
        ∃ s, t = .sink s ∧ q = .sink s ∧ (σ.sinks s)._bg.func = none ∧
          (σ.sinks s)._bg.done_ = false) := by
  unfold State.nextAccess at hacc
  split at hacc
  · simp at hacc
  · next hfatal =>
      refine ⟨hfatal, .inl ?_⟩
      cases hpc : σ.pc <;> simp [hpc] at hacc
      exact ⟨rfl, hacc.2.symm, rfl, hacc.1⟩
  · next s hfatal =>
      refine ⟨hfatal, .inr ⟨s, rfl, ?_⟩⟩
      simp at hacc
      exact ⟨hacc.2.symm, hacc.1.1.2, hacc.1.2⟩
  · next c hfatal =>
      split at hacc
      · split at hacc
        · split at hacc <;> simp at hacc
        · simp at hacc
      all_goals simp at hacc
  · simp at hacc

/-- From an empty queue nothing is taken. -/
theorem step_eq_none_of_empty {σ : State T R} {a : Action} {q : QueueId} (ha : a.ofThread = true)
    (hacc : σ.nextAccess a.thread = some (.wait_and_pop q)) (hempty : σ.queueEmpty q = true) :
    step σ a = none := by
  by_contra hne
  obtain ⟨σ', hs⟩ := Option.ne_none_iff_exists'.mp hne
  obtain ⟨hfatal, hpop⟩ := nextAccess_pop hacc
  cases (step_cases hs).2 with
  | client => rcases hpop with ⟨ht, -⟩ | ⟨s, ht, -⟩ <;> simp [Action.thread] at ht
  | worker _ hs =>
      obtain ⟨-, rfl, hpc, hdone⟩ := hpop.resolve_right fun ⟨s, ht, _⟩ => by
        simp [Action.thread] at ht
      cases hs with
      | exit _ hexit =>
          obtain ⟨-, hdone', -⟩ := Active.exit_eq_some hexit
          simp [hdone] at hdone'
      | pop _ hpop =>
          obtain ⟨c, rest, -, -, hmq, -⟩ := Active.pop_eq_some hpop
          simp [State.queueEmpty, hmq] at hempty
      | _ hpc' => simp [hpc] at hpc'
  | @sink s _ _ hs =>
      obtain ⟨s', ht, rfl, hfunc, hdone⟩ := hpop.resolve_left fun ⟨ht, _⟩ => by
        simp [Action.thread] at ht
      obtain rfl : s = s' := by simpa [Action.thread] using ht
      have hnil : (σ.sinks s)._bg.mq_ = [] := by simpa [State.queueEmpty] using hempty
      have hnone : (σ.sinks s).turn = none := by
        simp [Sink.turn, hfunc, hdone, Active.pop, hnil]
      cases hs with
      | turn _ hturn | value _ hturn => simp [hnone] at hturn
  | @fatal t _ hs =>
      have hfatal : σ.fatal t = .none := hfatal
      cases hs with
      | _ hpc => simp [hfatal] at hpc
  | signal | raise => simp [Action.ofThread] at ha
  | @fault t _ hnull =>
      have hfatal : σ.fatal t = .none := hfatal
      rcases hpop with ⟨ht, -⟩ | ⟨s, ht, -⟩
      all_goals
        obtain rfl : t = _ := ht
        simp [State.derefsNull, hfatal] at hnull

/-- No thread can go on, or get a mutex that it comes to lock. -/
def Locked.halted (L : Locked T R) : Prop :=
  ∀ b : LockedAction, b.ofThread = true → lockedStep L b = none

theorem Action.ne_signal {a : Action} (ha : a.ofThread = true) (t : Thread) (msg : FatalMessage) :
    a ≠ .signal t msg := by
  rintro rfl
  simp [Action.ofThread] at ha

theorem lockedStep_move {L : Locked T R} {a : Action} {σ : State T R}
    (ha : ∀ t msg, a ≠ .signal t msg) (hs : step L.state a = some σ) :
    lockedStep L (.step a) = L.move a σ := by
  have hexited := (step_cases hs).1
  cases a with
  | signal t msg => exact absurd rfl (ha t msg)
  | _ => simp [lockedStep, hexited, hs]

namespace Locked
variable {L : Locked T R}

/-- A thread with a mutex makes the access, or waits for the queue. -/
theorem not_halted_of_locked (hg : Guarded L) (ho : Owned L.state)
    (hexited : L.state.exited = false) {t : Thread} {acc : Access}
    (hpc : L.access t = .locked acc) : ¬ L.halted := by
  intro h
  rcases hg.locked t acc hpc with rfl | hnext
  · simpa [lockedStep, hexited, setHook, hpc] using h (.setFatalPreLoggingHook t) rfl
  · by_cases hempty : ∃ q, acc = .wait_and_pop q ∧ L.state.queueEmpty q = true
    · obtain ⟨q, rfl, hempty⟩ := hempty
      simpa [lockedStep, hexited, wait, hpc, hempty] using h (.wait t) rfl
    · have hs := isSome_step_of_nextAccess ho hexited hnext fun q hq => by
        simpa using fun hq' => hempty ⟨q, hq, hq'⟩
      obtain ⟨σ, hs⟩ := Option.isSome_iff_exists.mp hs
      have hnone := h (.step (L.state.actionOf t)) (L.state.ofThread_actionOf t)
      rw [lockedStep_move (Action.ne_signal (by simp)) hs] at hnone
      simp [move, hpc, hnext] at hnone

/-- When no thread can go on, none is inside an access: each waits for its queue, or is
outside. -/
theorem access_of_halted (hg : Guarded L) (ho : Owned L.state) (hexited : L.state.exited = false)
    (h : L.halted) (t : Thread) : (L.access t).busy = false := by
  cases hpc : L.access t with
  | outside | saveMessage | wait => rfl
  | locked acc => exact absurd h (not_halted_of_locked hg ho hexited hpc)
  | unlock acc => simpa [lockedStep, hexited, unlock, hpc] using h (.unlock t) rfl
  | notify_one q => simpa [lockedStep, hexited, notify_one, hpc] using h (.notify_one t) rfl

/-- Without signals that stop a thread inside an access, mutexes alone stop nobody: when no
thread can go on, none could without mutexes. -/
theorem halted_state (hg : Guarded L) (hu : Undisturbed L) (ho : Owned L.state)
    (hexited : L.state.exited = false) (h : L.halted) : L.state.halted := by
  have hbusy := access_of_halted hg ho hexited h
  have hfree (m : Mutex) : L.held m = false := by
    by_contra hheld
    obtain ⟨t, ht⟩ := hu.held m (Bool.eq_true_of_not_eq_false hheld)
    simp [AccessPc.holds_of_busy (hbusy t)] at ht
  have hwants (t : Thread) : L.wants t = none := by
    by_contra hne
    obtain ⟨acc, hacc⟩ := Option.ne_none_iff_exists'.mp hne
    simpa [lockedStep, hexited, lock, hacc, hfree] using h (.lock t) rfl
  intro a ha
  by_contra hne
  obtain ⟨σ, hs⟩ := Option.ne_none_iff_exists'.mp hne
  have hmove : L.move a σ = none := by
    rw [← lockedStep_move (Action.ne_signal ha) hs]
    exact h _ ha
  have hwant := hwants a.thread
  cases hpc : L.access a.thread with
  | outside =>
      have hnext : L.state.nextAccess a.thread = none := by simpa [wants, hpc] using hwant
      cases hcloses : L.state.closes a.thread <;> simp [move, hpc, hnext, hcloses, hfree] at hmove
  | saveMessage => simp [wants, hpc] at hwant
  | wait q =>
      rcases hu.wait _ q hpc with hempty | ⟨t, ht⟩
      · simp [step_eq_none_of_empty ha (hg.wait _ q hpc) hempty] at hs
      · simp [AccessPc.notifies_of_busy (hbusy t)] at ht
  | locked | unlock | notify_one =>
      have := hbusy a.thread
      simp [hpc, AccessPc.busy] at this

end Locked

/-! ## Nothing is lost -/

/-- The worker with its mutexes free and no thread inside an access. -/
def State.quiet (σ : State T R) : Locked T R := ⟨σ, fun _ => false, fun _ => .outside⟩

/-- The process does not end inside an access, or in `saveMessage`. -/
theorem Step.outside_of_exited {σ σ' : State T R} {a : Action} (hs : Step σ a σ')
    (hexited : σ.exited = false) (h : σ'.exited = true) : σ.nextAccess a.thread = none ∧
      σ.closes a.thread = none ∧ (σ'.fatal a.thread).saves = false := by
  cases hs with
  | client _ hs => cases hs <;> simp [hexited, State.afterRelease, State.destroySink] at h
  | worker hfatal hs =>
      cases hs with
      | exitWithDefaultSignalHandler hpc =>
          simp [State.nextAccess, State.closes, Action.thread, hfatal, hpc, FatalPc.saves]
      | _ => simp [hexited, State.ret, State.destroySink] at h
  | sink _ hs => cases hs <;> simp [hexited] at h
  | fatal hs =>
      cases hs with
      | exitWithDefaultSignalHandler hpc =>
          simp [State.nextAccess, State.closes, Action.thread, hpc, FatalPc.saves]
      | _ => simp [hexited] at h
  | signal | raise | fault => simp [hexited] at h

namespace Locked

theorem reachable_step {L L' : Locked T R} {b : LockedAction}
    (h : (lockedWorker T R).Reachable L) (hs : lockedStep L b = some L') :
    (lockedWorker T R).Reachable L' := .step h trivial hs

/-- One thread is at `pc`, and has the mutex locked or not. -/
def only (σ : State T R) (t : Thread) (pc : AccessPc) (m : Mutex) (locked : Bool) : Locked T R :=
  σ.quiet.goto t pc m locked

theorem only_outside (σ : State T R) (t : Thread) (m : Mutex) :
    only σ t .outside m false = σ.quiet := by
  simp [only, goto, State.quiet]

variable {σ : State T R} {t : Thread}

/-- The thread unlocks the mutex and leaves. -/
theorem leaves_reachable (acc : Access) (hexited : σ.exited = false)
    (h : (lockedWorker T R).Reachable (only σ t (.unlock acc) acc.mutex true)) :
    (lockedWorker T R).Reachable σ.quiet := by
  have hunlock : lockedStep (only σ t (.unlock acc) acc.mutex true) (.unlock t) =
      some (only σ t acc.left acc.mutex false) := by
    simp [lockedStep, only, unlock, goto, State.quiet, hexited]
  have hleft := reachable_step h hunlock
  cases acc with
  | push q =>
      refine reachable_step (b := .notify_one t) hleft ?_
      have hall (t' : Thread) :
          (if t' = t ∨
              Function.update (fun _ => AccessPc.outside) t (.notify_one q) t' = .wait q then
            .outside
          else Function.update (fun _ => AccessPc.outside) t (.notify_one q) t') = .outside := by
        by_cases ht : t' = t <;> simp [ht]
      simp [lockedStep, only, notify_one, goto, Access.left, Access.mutex, State.quiet, hexited,
        hall]
  | _ => exact only_outside σ t _ ▸ hleft

/-- The thread goes through an access that is not one of `step`. -/
theorem hook_reachable (hexited : σ.exited = false)
    (h : (lockedWorker T R).Reachable
      (only σ t .saveMessage .setFatalPreLoggingHook false)) :
    (lockedWorker T R).Reachable σ.quiet := by
  have hlock : lockedStep (only σ t .saveMessage .setFatalPreLoggingHook false) (.lock t) =
      some (only σ t (.locked .setFatalPreLoggingHook) .setFatalPreLoggingHook true) := by
    simp [lockedStep, only, lock, wants, goto, State.quiet, hexited, Access.mutex]
  have hset : lockedStep (only σ t (.locked .setFatalPreLoggingHook) .setFatalPreLoggingHook true)
      (.setFatalPreLoggingHook t) =
        some (only σ t (.unlock .setFatalPreLoggingHook) .setFatalPreLoggingHook true) := by
    simp [lockedStep, only, setHook, goto, State.quiet, hexited]
  exact leaves_reachable .setFatalPreLoggingHook hexited
    (reachable_step (reachable_step h hlock) hset)

end Locked

/-- A step of a thread with all the mutexes free, with the access it makes. -/
theorem quiet_step {σ σ' : State T R} {a : Action} (h : (lockedWorker T R).Reachable σ.quiet)
    (ha : ∀ t msg, a ≠ .signal t msg) (hs : step σ a = some σ') :
    (lockedWorker T R).Reachable σ'.quiet := by
  obtain ⟨hexited, hstep⟩ := step_cases hs
  have hrunning (hnot : ¬ (σ.nextAccess a.thread = none ∧ σ.closes a.thread = none ∧
      (σ'.fatal a.thread).saves = false)) : σ'.exited = false := by
    by_contra hend
    exact hnot (hstep.outside_of_exited hexited (Bool.eq_true_of_not_eq_false hend))
  have hmove (L : Locked T R) (hL : L.state = σ) : lockedStep L (.step a) = L.move a σ' :=
    lockedStep_move ha (by rw [hL, hs])
  cases hnext : σ.nextAccess a.thread with
  | some acc =>
      have hlock : lockedStep σ.quiet (.lock a.thread) =
          some (Locked.only σ a.thread (.locked acc) acc.mutex true) := by
        simp [lockedStep, State.quiet, Locked.lock, Locked.wants, Locked.only, hexited, hnext]
      refine Locked.leaves_reachable (t := a.thread) acc (hrunning (by simp [hnext])) ?_
      refine Locked.reachable_step (b := .step a) (Locked.reachable_step h hlock) ?_
      rw [hmove _ rfl]
      simp [Locked.move, Locked.only, Locked.goto, State.quiet, hnext]
  | none =>
      cases hcloses : σ.closes a.thread with
      | some q =>
          refine Locked.leaves_reachable (t := a.thread) (.push q)
            (hrunning (by simp [hcloses])) ?_
          refine Locked.reachable_step (b := .step a) h ?_
          rw [hmove _ rfl]
          simp [Locked.move, Locked.only, Locked.goto, State.quiet, hnext, hcloses, Access.mutex]
      | none =>
          by_cases hsaves : (σ'.fatal a.thread).saves = true
          · refine Locked.hook_reachable (t := a.thread) (hrunning (by simp [hsaves])) ?_
            refine Locked.reachable_step (b := .step a) h ?_
            rw [hmove _ rfl]
            simp [Locked.move, Locked.only, Locked.goto, State.quiet, hnext, hcloses, hsaves]
          · refine Locked.reachable_step (b := .step a) h ?_
            rw [hmove _ rfl]
            simp [Locked.move, State.quiet, hnext, hcloses, hsaves]

/-- What the worker does without mutexes, it can do with them. -/
theorem quiet_reachable {σ : State T R} (h : (logWorker T R).Reachable σ) :
    (lockedWorker T R).Reachable σ.quiet := by
  induction h with
  | start h =>
      obtain ⟨programs, active, rfl⟩ := h
      exact .start ⟨programs, active, rfl⟩
  | @step σ σ' a _ _ hs ih =>
      by_cases ha : ∃ t msg, a = .signal t msg
      · obtain ⟨t, msg, rfl⟩ := ha
        refine Locked.reachable_step (b := .step (.signal t msg)) ih ?_
        have hs : step σ (.signal t msg) = some σ' := hs
        simp [lockedStep, State.quiet, Locked.interrupt, (step_cases hs).1, hs]
      · exact quiet_step ih (fun t msg heq => ha ⟨t, msg, heq⟩) hs

theorem reachable_iff {σ : State T R} : (logWorker T R).Reachable σ ↔
    ∃ L : Locked T R, (lockedWorker T R).Reachable L ∧ L.state = σ := by
  constructor
  · exact fun h => ⟨σ.quiet, quiet_reachable h, rfl⟩
  · rintro ⟨L, hL, rfl⟩
    exact state_reachable hL

/-- With no access next in any program, mutexes let nobody go on who cannot without. -/
theorem State.halted_quiet {σ : State T R} (h : σ.halted) (hnext : ∀ t, σ.nextAccess t = none) :
    σ.quiet.halted := by
  intro b hb
  unfold lockedStep
  split
  · rfl
  · cases b with
    | step a => simp [State.quiet, h a hb]
    | lock t => simp [State.quiet, Locked.lock, Locked.wants, hnext]
    | wake => simp [LockedAction.ofThread] at hb
    | _ => rfl

end G3log
