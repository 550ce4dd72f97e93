import G3log.Active
import G3log.MessageCopies
import G3log.Lib.Handover
import G3log.Lib.Transition

/-!
# The owner of a message

A message that is handed to `save`, `fatal` or `Sink::send` gets to the background thread in
a `MoveOnCopy`, and every copy on the way empties the wrapper it was made from: the argument,
the parameter, what the lambda captures, the lambda in the `std::function` that `Active::send`
takes, and the copy of it that `shared_queue::push` takes. From there on the function is
moved, and a call makes the parameters of `bgSave`, `bgFatal` or the sink. Here any number of
threads hand over messages of one type, and each construction of a wrapper is one step.

## Main definitions

* `uniquePtr` -- how a `std::unique_ptr` is moved.
* `Passage`, `Passage.step`, `passage` -- the senders, the queue and the background thread.
* `workerPassage`, `sinkPassage` -- for `bgSave` and `bgFatal`, and for a sink.
* `Passage.OneOwner`, `Alone`, `NeverNull` -- what is promised, and `one_owner`.
-/

namespace G3log

open Transition Handover

/-- No move loses anything. -/
def Moveable.Lossless {α : Type} (M : Moveable α) : Prop := ∀ x, (M.construct x).1 = x

/-- The null pointer is left. -/
def uniquePtr (β : Type) : Moveable (Option β) where
  construct p := (p, none)
  assign _ other := (other, none)

theorem lossless_uniquePtr (β : Type) : (uniquePtr β).Lossless := by
  intro x
  rfl

theorem lossless_logMessage (left : String → String) : (LogMessage.moveable left).Lossless := by
  intro x
  rfl

/-- Which of the wrappers has the message, of those a sender makes. -/
inductive SendStage
  /-- The one that the caller has. -/
  | argument
  /-- The parameter `msg` of `save`, `fatal` or `Sink::send`. -/
  | parameter
  /-- What the lambda captures. -/
  | closure
  /-- The lambda in the parameter `msg_` of `Active::send`. -/
  | callback
  /-- The lambda in the parameter `item` of `shared_queue::push`. -/
  | item
  deriving DecidableEq

def SendStage.next : SendStage → Option SendStage
  | .argument => some .parameter
  | .parameter => some .closure
  | .closure => some .callback
  | .callback => some .item
  | .item => none

/-- Where a sender is. The wrappers that were emptied live until the calls return. -/
inductive SenderPc
  | idle
  | holding (stage : SendStage) (a : ℕ) (stale : List ℕ)
  | returning (stale : List ℕ)
  deriving DecidableEq

/-- A thread with the messages that it has yet to hand over. -/
structure MessageSender (α : Type) where
  program : List α
  pc : SenderPc

/-- Where the background thread is. -/
inductive ReceiverPc
  /-- In `Active::run`, at the call of `func` if there is one. -/
  | run
  /-- In a call with the message in a parameter, and some calls to go. -/
  | passing (a : ℕ) (calls : ℕ) (stale : List ℕ)
  | returning (stale : List ℕ)
  deriving DecidableEq

/-- An active object with its senders. A callback captures a wrapper or nothing of this
kind. -/
structure Passage (ι α : Type) where
  heap : Heap (MoveOnCopy α)
  senders : ι → MessageSender α
  _bg : Active (Option ℕ)
  pc : ReceiverPc
  /-- The messages that were handed over, by their numbers. -/
  handed : List α
  /-- What the last parameter of each call had in it. -/
  received : List (Option ℕ × MoveOnCopy α)

inductive PassageAction (ι : Type)
  | sender (t : ι)
  /-- The argument is a temporary that the compiler makes in the parameter. -/
  | elide (t : ι)
  /-- The library moves a lambda once more on its way into the `std::function`. -/
  | relocate (t : ι)
  /-- A callback that captures no message is sent. -/
  | async
  /-- `~Active` -/
  | destroy
  | receiver

namespace Passage
variable {ι α : Type} [DecidableEq ι] (M : Moveable α)

@[simp] def setSender (t : ι) (s : MessageSender α) (σ : Passage ι α) : Passage ι α :=
  { σ with senders := Function.update σ.senders t s }

def start (programs : ι → List α) : Passage ι α where
  heap := .empty
  senders := fun t => ⟨programs t, .idle⟩
  _bg := .createActive
  pc := .run
  handed := []
  received := []

/-- The sender makes a wrapper from the one it has. -/
def handOn (t : ι) (stage : SendStage) (a : ℕ) (stale : List ℕ) (σ : Passage ι α) :
    Option (Passage ι α) :=
  (σ.heap.handOver (MoveOnCopy.construct M) a).map fun heap =>
    { σ.setSender t { σ.senders t with pc := .holding stage σ.heap.next (a :: stale) } with
      heap := heap }

def senderStep (t : ι) (σ : Passage ι α) : Option (Passage ι α) :=
  match (σ.senders t).pc with
  | .idle =>
      match (σ.senders t).program with
      | [] => none
      | x :: rest =>
          some { σ.setSender t ⟨rest, .holding .argument σ.heap.next []⟩ with
            heap := σ.heap.alloc ⟨x⟩ σ.handed.length
            handed := σ.handed ++ [x] }
  | .holding stage a stale =>
      match stage.next with
      | some stage' => σ.handOn M t stage' a stale
      -- `queue_.push(std::move(item))`: the lambda stays where it is.
      | none =>
          some { σ.setSender t { σ.senders t with pc := .returning stale } with
            _bg := σ._bg.send (.work (some a)) }
  | .returning (b :: stale) =>
      some { σ.setSender t { σ.senders t with pc := .returning stale } with
        heap := σ.heap.free b }
  | .returning [] => some (σ.setSender t { σ.senders t with pc := .idle })

def elideStep (t : ι) (σ : Passage ι α) : Option (Passage ι α) :=
  match (σ.senders t).pc with
  | .holding .argument a stale =>
      some (σ.setSender t { σ.senders t with pc := .holding .parameter a stale })
  | _ => none

def relocateStep (t : ι) (σ : Passage ι α) : Option (Passage ι α) :=
  match (σ.senders t).pc with
  | .holding .closure a stale => σ.handOn M t .closure a stale
  | _ => none

/-- The background thread makes a parameter from the wrapper at an address. -/
def call (a : ℕ) (calls : ℕ) (stale : List ℕ) (σ : Passage ι α) : Option (Passage ι α) :=
  (σ.heap.handOver (MoveOnCopy.construct M) a).map fun heap =>
    { σ with heap := heap, pc := .passing σ.heap.next calls (a :: stale) }

/-- The next step of `run`, where a callback with a message makes `calls` parameters besides
the first. -/
def receiverStep (calls : ℕ) (σ : Passage ι α) : Option (Passage ι α) :=
  match σ.pc with
  | .run =>
      match σ._bg.func with
      | none =>
          if σ._bg.done_ then σ._bg.exit.map fun bg => { σ with _bg := bg }
          else σ._bg.pop.map fun bg => { σ with _bg := bg }
      | some (.work (some a)) => σ.call M a calls []
      | some _ => some { σ with _bg := σ._bg.ret }
  | .passing a (n + 1) stale => σ.call M a n stale
  -- The body of the last call, and the end of its parameter.
  | .passing a 0 stale =>
      (σ.heap.objects a).map fun o =>
        { σ with
          heap := σ.heap.free a
          received := σ.received ++ [(o.content, o.value)]
          pc := .returning stale }
  | .returning (b :: stale) =>
      some { σ with heap := σ.heap.free b, pc := .returning stale }
  | .returning [] => some { σ with _bg := σ._bg.ret, pc := .run }

def step (calls : ℕ) (σ : Passage ι α) : PassageAction ι → Option (Passage ι α)
  | .sender t => σ.senderStep M t
  | .elide t => σ.elideStep t
  | .relocate t => σ.relocateStep M t
  | .async => some { σ with _bg := σ._bg.send (.work none) }
  | .destroy => some { σ with _bg := σ._bg.send .done }
  | .receiver => σ.receiverStep M calls

end Passage

section
variable (ι : Type) [DecidableEq ι]

/-- Messages of one type, on their way to a call with so many parameters besides the first. -/
def passage {α : Type} (M : Moveable α) (calls : ℕ) :
    System (Passage ι α) (PassageAction ι) where
  Start σ := ∃ programs, σ = .start programs
  step := Passage.step M calls

/-- The way of a `LogMessagePtr` to `bgSave`, or of a `FatalMessagePtr` to `bgFatal`. The
callers of `save` and `fatal` have a message. -/
def workerPassage (β : Type) : System (Passage ι (Option β)) (PassageAction ι) where
  Start σ := ∃ programs : ι → List β, σ = .start fun t => (programs t).map some
  step := Passage.step (uniquePtr β) 0

/-- The way of a `LogMessageMover` to the call of a sink. -/
def sinkPassage (left : String → String) (calls : ℕ) :
    System (Passage ι LogMessage) (PassageAction ι) :=
  passage ι (LogMessage.moveable left) calls

end

/-! ## One owner -/

/-- The wrapper that has the message of a sender. -/
def SenderPc.held : SenderPc → Option ℕ
  | .holding _ a _ => some a
  | _ => none

def SenderPc.stale : SenderPc → List ℕ
  | .holding _ _ stale => stale
  | .returning stale => stale
  | .idle => []

def ReceiverPc.stale : ReceiverPc → List ℕ
  | .passing _ _ stale => stale
  | .returning stale => stale
  | .run => []

/-- What a callback captures. -/
def Callback.captured : Callback (Option ℕ) → Option ℕ
  | .work a => a
  | .done => none

/-- Who has a message. -/
inductive Holder (ι : Type)
  | sender (t : ι)
  | queue
  | receiver

namespace Passage
variable {ι α : Type}

/-- The wrappers that the callbacks in the queue capture. -/
def queued (σ : Passage ι α) : List ℕ := σ._bg.mq_.filterMap Callback.captured

/-- The wrapper that has the message of the background thread. -/
def receiving (σ : Passage ι α) : Option ℕ :=
  match σ.pc with
  | .run => σ._bg.func.bind Callback.captured
  | .passing a _ _ => some a
  | .returning _ => none

/-- Someone has a wrapper with a message. -/
def At (σ : Passage ι α) : Holder ι → ℕ → Prop
  | .sender t, a => (σ.senders t).pc.held = some a
  | .queue, a => a ∈ σ.queued
  | .receiver, a => σ.receiving = some a

/-- The numbers of the messages that have been received. -/
def arrived (σ : Passage ι α) : List (Option ℕ) := σ.received.map Prod.fst

/-- The live wrapper that has a message has it as it was handed over. -/
def Holds (σ : Passage ι α) (a i : ℕ) (x : α) : Prop :=
  σ.heap.Holds a i ⟨x⟩ ∧ σ.handed[i]? = some x

/-- Every message that was handed over is in one live wrapper, unchanged, which a sender has
or a callback in the queue or the background thread, until it is received, once. Any other
wrapper has what a move left of a message. A callback with a message that is called has the
message, and so does the parameter of the call. -/
structure OneOwner (M : Moveable α) (σ : Passage ι α) : Prop where
  owner : ∀ i x, σ.handed[i]? = some x → some i ∉ σ.arrived →
    ∃ a k, σ.Holds a i x ∧ σ.At k a ∧ ∀ b y, σ.heap.Holds b i y → b = a
  gone : ∀ i, some i ∈ σ.arrived → ¬ σ.heap.Has i
  other : ∀ a y, σ.heap.objects a = some ⟨y, none⟩ →
    ∃ (i : ℕ) (x : α), σ.handed[i]? = some x ∧ y = ⟨(M.construct x).2⟩
  executed : ∀ a, σ.pc = .run → σ._bg.func = some (.work (some a)) → ∃ i x, σ.Holds a i x
  parameter : ∀ a calls stale, σ.pc = .passing a calls stale → ∃ i x, σ.Holds a i x
  received : ∀ r ∈ σ.received, ∃ i x, r = (some i, ⟨x⟩) ∧ σ.handed[i]? = some x
  once : σ.arrived.Nodup

/-- Of the live wrappers one has the message, and each of the others has another message or
is as `Emptied` says. -/
def Alone (Emptied : MoveOnCopy α → Prop) (σ : Passage ι α) : Prop :=
  ∀ i x, σ.handed[i]? = some x → some i ∉ σ.arrived →
    ∃ a, σ.Holds a i x ∧ ∀ b o, b ≠ a → σ.heap.objects b = some o →
      Emptied o.value ∨ ∃ j ≠ i, ∃ y, σ.Holds b j y

/-- `bgSave` and `bgFatal` have a pointer to the message that was handed over, and on the way
there all other wrappers are null. -/
structure NeverNull {β : Type} (σ : Passage ι (Option β)) : Prop where
  alone : σ.Alone (· = ⟨none⟩)
  holder : ∀ a i p, σ.Holds a i p → ∃ m, p = some m
  parameter : ∀ a calls stale, σ.pc = .passing a calls stale → ∃ i m, σ.Holds a i (some m)
  received : ∀ r ∈ σ.received, ∃ i m, r = (some i, ⟨some m⟩) ∧ σ.handed[i]? = some (some m)

/-- The other wrappers have lost the five texts of a message, which are what `left` gives. -/
def TextsLeft (left : String → String) (σ : Passage ι LogMessage) : Prop :=
  σ.Alone fun y => ∃ (i : ℕ) (m : LogMessage), σ.handed[i]? = some m ∧ y = ⟨{ m with
    _file := left m._file
    _file_path := left m._file_path
    _function := left m._function
    _expression := left m._expression
    _message := left m._message }⟩

/-! ## The invariant -/

/-- What the messages are, by their numbers. -/
def payload (σ : Passage ι α) (i : ℕ) : Option (MoveOnCopy α) := σ.handed[i]?.map .mk

/-- An emptied wrapper, whose address is not used again. -/
def Stale (σ : Passage ι α) (b : ℕ) : Prop := (∀ k, ¬ σ.At k b) ∧ b < σ.heap.next

structure Inv (M : Moveable α) (σ : Passage ι α) : Prop where
  kept : Kept (MoveOnCopy.construct M) σ.payload σ.At σ.heap
  nodup : σ.queued.Nodup
  sender : ∀ t, ∀ b ∈ (σ.senders t).pc.stale, σ.Stale b
  receiver : ∀ b ∈ σ.pc.stale, σ.Stale b
  handed : ∀ i, i < σ.handed.length ↔ σ.heap.Has i ∨ some i ∈ σ.arrived
  apart : ∀ i, some i ∈ σ.arrived → ¬ σ.heap.Has i
  received : ∀ r ∈ σ.received, ∃ i x, r = (some i, ⟨x⟩) ∧ σ.handed[i]? = some x
  once : σ.arrived.Nodup

variable {M : Moveable α} {σ σ' : Passage ι α}

/-- Whoever has a wrapper finds a message in it. -/
theorem Inv.holds (h : Inv M σ) {k : Holder ι} {a : ℕ} (ha : σ.At k a) :
    ∃ i x, σ.Holds a i x := by
  obtain ⟨i, y, hy, hi⟩ := h.kept.holds k a ha
  obtain ⟨x, hx, rfl⟩ := Option.map_eq_some_iff.mp hi
  exact ⟨i, x, hy, hx⟩

theorem Inv.oneOwner (h : Inv M σ) : OneOwner M σ := by
  constructor
  · intro i x hi harrived
    have hlt : i < σ.handed.length := (List.getElem?_eq_some_iff.mp hi).1
    obtain ⟨a, y, hy⟩ := ((h.handed i).mp hlt).resolve_right harrived
    obtain ⟨k, hat⟩ := h.kept.placed a i y hy
    obtain ⟨j, z, hz, hj⟩ := h.holds hat
    have heq := hz.symm.trans hy
    simp only [Option.some.injEq, Object.mk.injEq] at heq
    obtain ⟨-, rfl⟩ := heq
    obtain rfl : z = x := Option.some.inj (hj.symm.trans hi)
    refine ⟨a, k, ⟨hz, hj⟩, hat, ?_⟩
    intro b w hb
    exact h.kept.one b a j w y hb hy
  · exact h.apart
  · intro a y ha
    obtain ⟨i, x, hi, rfl⟩ := h.kept.left a y ha
    obtain ⟨z, hz, rfl⟩ := Option.map_eq_some_iff.mp hi
    exact ⟨i, z, hz, rfl⟩
  · intro a hpc hfunc
    have hat : σ.At .receiver a := by simp [At, receiving, hpc, hfunc, Callback.captured]
    exact h.holds hat
  · intro a calls stale hpc
    have hat : σ.At .receiver a := by simp [At, receiving, hpc]
    exact h.holds hat
  · exact h.received
  · exact h.once

/-- What a move leaves of a message is all that the other wrappers have. -/
theorem Inv.alone (h : Inv M σ) {Emptied : MoveOnCopy α → Prop}
    (hleft : ∀ (i : ℕ) (x : α), σ.handed[i]? = some x → Emptied ⟨(M.construct x).2⟩) :
    σ.Alone Emptied := by
  intro i x hi harrived
  obtain ⟨a, k, hholds, -, hone⟩ := h.oneOwner.owner i x hi harrived
  refine ⟨a, hholds, ?_⟩
  intro b o hba ho
  cases hcontent : o.content with
  | none =>
      obtain ⟨j, y, hj, hy⟩ := h.oneOwner.other b o.value (by rw [ho, ← hcontent])
      rw [hy]
      exact .inl (hleft j y hj)
  | some j =>
      right
      have hb : σ.heap.Holds b j o.value := by rw [Heap.Holds, ho, ← hcontent]
      obtain ⟨k', hat⟩ := h.kept.placed b j o.value hb
      obtain ⟨j', y, hy⟩ := h.holds hat
      refine ⟨j', ?_, y, hy⟩
      rintro rfl
      exact hba (hone b _ hy.1)

theorem inv_start (programs : ι → List α) : Inv M (start programs) := by
  constructor
  · apply kept_empty
    intro k a
    cases k <;> simp [At, start, SenderPc.held, queued, receiving, Active.createActive]
  · exact List.nodup_nil
  · intro t b hb
    cases hb
  · intro b hb
    cases hb
  · intro i
    simp [start, arrived, Heap.not_has_empty]
  · intro i hi
    cases hi
  · intro r hr
    cases hr
  · exact List.nodup_nil

/-- Emptied wrappers stay so, as long as only the new address is taken. -/
theorem Stale.mono {b : ℕ} (hs : σ.Stale b) (hnext : σ.heap.next ≤ σ'.heap.next)
    (hAt : ∀ k, σ'.At k b → (∃ k', σ.At k' b) ∨ b = σ.heap.next) : σ'.Stale b := by
  refine ⟨?_, hs.2.trans_le hnext⟩
  intro k hk
  rcases hAt k hk with ⟨k', hk'⟩ | heq
  · exact hs.1 k' hk'
  · exact absurd hs.2 (by omega)

/-- A step that keeps what is handed over and what is received. -/
theorem Inv.of_kept (h : Inv M σ)
    (hkept : Kept (MoveOnCopy.construct M) σ.payload σ'.At σ'.heap) (hnodup : σ'.queued.Nodup)
    (hnext : σ.heap.next ≤ σ'.heap.next)
    (hAt : ∀ k b, σ'.At k b → (∃ k', σ.At k' b) ∨ b = σ.heap.next)
    (hsender : ∀ t, ∀ b ∈ (σ'.senders t).pc.stale, σ.Stale b ∨ σ'.Stale b)
    (hreceiver : ∀ b ∈ σ'.pc.stale, σ.Stale b ∨ σ'.Stale b)
    (hhanded : σ'.handed = σ.handed) (hreceived : σ'.received = σ.received)
    (hHas : ∀ j, σ'.heap.Has j ↔ σ.heap.Has j) : Inv M σ' := by
  have hpayload : σ'.payload = σ.payload := by
    funext i
    rw [payload, hhanded, payload]
  have harrived : σ'.arrived = σ.arrived := by rw [arrived, hreceived, arrived]
  constructor
  · rw [hpayload]
    exact hkept
  · exact hnodup
  · intro t b hb
    rcases hsender t b hb with hb' | hb'
    · exact hb'.mono hnext fun k => hAt k b
    · exact hb'
  · intro b hb
    rcases hreceiver b hb with hb' | hb'
    · exact hb'.mono hnext fun k => hAt k b
    · exact hb'
  · intro i
    rw [hhanded, harrived, hHas]
    exact h.handed i
  · intro i
    rw [harrived, hHas]
    exact h.apart i
  · rw [hhanded, hreceived]
    exact h.received
  · rw [harrived]
    exact h.once

/-- A wrapper is made from one that has a message, for whoever has that. -/
theorem Inv.handOver (h : Inv M σ) (hM : M.Lossless) {k : Holder ι} {a : ℕ} (ha : σ.At k a)
    (hheap : σ.heap.handOver (MoveOnCopy.construct M) a = some σ'.heap)
    (hAt : ∀ k' b, σ'.At k' b ↔ σ.At k' b ∧ b ≠ a ∨ k' = k ∧ b = σ.heap.next)
    (hnodup : σ'.queued.Nodup)
    (hsender : ∀ t, ∀ b ∈ (σ'.senders t).pc.stale, b = a ∨ σ.Stale b)
    (hreceiver : ∀ b ∈ σ'.pc.stale, b = a ∨ σ.Stale b)
    (hhanded : σ'.handed = σ.handed) (hreceived : σ'.received = σ.received) : Inv M σ' := by
  have hmove : ∀ y, (MoveOnCopy.construct M y).1 = y := by
    intro y
    rw [MoveOnCopy.construct, hM]
  have hkept := h.kept.handOver hmove ha hheap hAt
  have hHas := h.kept.has_handOver hmove ha hheap
  have hnext := Heap.next_handOver hheap
  have hlt := h.kept.lt_next ha
  have hstale : σ'.Stale a := by
    refine ⟨?_, by omega⟩
    intro k' hk'
    rcases (hAt k' a).mp hk' with hk' | hk'
    · exact hk'.2 rfl
    · omega
  have hor {b : ℕ} (hb : b = a ∨ σ.Stale b) : σ.Stale b ∨ σ'.Stale b := by
    rcases hb with rfl | hb
    · exact .inr hstale
    · exact .inl hb
  refine h.of_kept hkept hnodup (by omega) ?_ ?_ ?_ hhanded hreceived hHas
  · intro k' b hb
    rcases (hAt k' b).mp hb with hb' | hb'
    · exact .inl ⟨k', hb'.1⟩
    · exact .inr hb'.2
  · intro t b hb
    exact hor (hsender t b hb)
  · intro b hb
    exact hor (hreceiver b hb)

/-- A wrapper passes from the one to the other where it lies. -/
theorem Inv.give (h : Inv M σ) {k : Holder ι} {a : ℕ} (ha : σ.At k a) (k₁ : Holder ι)
    (hheap : σ'.heap = σ.heap)
    (hAt : ∀ k' b, σ'.At k' b ↔ σ.At k' b ∧ b ≠ a ∨ k' = k₁ ∧ b = a)
    (hnodup : σ'.queued.Nodup)
    (hsender : ∀ t, ∀ b ∈ (σ'.senders t).pc.stale, σ.Stale b)
    (hreceiver : ∀ b ∈ σ'.pc.stale, σ.Stale b)
    (hhanded : σ'.handed = σ.handed) (hreceived : σ'.received = σ.received) : Inv M σ' := by
  have hkept := h.kept.give ha hAt
  rw [← hheap] at hkept
  refine h.of_kept hkept hnodup (by rw [hheap]) ?_ ?_ ?_ hhanded hreceived (by simp [hheap])
  · intro k' b hb
    rcases (hAt k' b).mp hb with hb' | hb'
    · exact .inl ⟨k', hb'.1⟩
    · exact .inl ⟨k, hb'.2 ▸ ha⟩
  · intro t b hb
    exact .inl (hsender t b hb)
  · intro b hb
    exact .inl (hreceiver b hb)

/-- A step that leaves the wrappers with those who have them. -/
theorem Inv.keep (h : Inv M σ) (hheap : σ'.heap = σ.heap) (hAt : ∀ k b, σ'.At k b ↔ σ.At k b)
    (hnodup : σ'.queued.Nodup)
    (hsender : ∀ t, ∀ b ∈ (σ'.senders t).pc.stale, σ.Stale b)
    (hreceiver : ∀ b ∈ σ'.pc.stale, σ.Stale b)
    (hhanded : σ'.handed = σ.handed) (hreceived : σ'.received = σ.received) : Inv M σ' := by
  have heq : σ'.At = σ.At := by
    funext k b
    exact propext (hAt k b)
  have hkept := h.kept
  rw [← hheap, ← heq] at hkept
  refine h.of_kept hkept hnodup (by rw [hheap]) ?_ ?_ ?_ hhanded hreceived (by simp [hheap])
  · intro k b hb
    exact .inl ⟨k, (hAt k b).mp hb⟩
  · intro t b hb
    exact .inl (hsender t b hb)
  · intro b hb
    exact .inl (hreceiver b hb)

/-- An emptied wrapper is destroyed. -/
theorem Inv.freeStale (h : Inv M σ) {a : ℕ} (ha : σ.Stale a) (hheap : σ'.heap = σ.heap.free a)
    (hAt : ∀ k b, σ'.At k b ↔ σ.At k b) (hnodup : σ'.queued.Nodup)
    (hsender : ∀ t, ∀ b ∈ (σ'.senders t).pc.stale, σ.Stale b)
    (hreceiver : ∀ b ∈ σ'.pc.stale, σ.Stale b)
    (hhanded : σ'.handed = σ.handed) (hreceived : σ'.received = σ.received) : Inv M σ' := by
  have heq : σ'.At = σ.At := by
    funext k b
    exact propext (hAt k b)
  obtain ⟨hkept, hHas⟩ := h.kept.free_stale ha.1
  rw [← hheap, ← heq] at hkept
  rw [← hheap] at hHas
  refine h.of_kept hkept hnodup ?_ ?_ ?_ ?_ hhanded hreceived hHas
  · rw [hheap]
    exact Nat.le_refl _
  · intro k b hb
    exact .inl ⟨k, (hAt k b).mp hb⟩
  · intro t b hb
    exact .inl (hsender t b hb)
  · intro b hb
    exact .inl (hreceiver b hb)

/-! ## The senders -/

/-- Who has what, when only one sender moves. -/
theorem at_of_sender [DecidableEq ι] (σ : Passage ι α) {t : ι} {s : MessageSender α}
    (hsenders : σ'.senders = Function.update σ.senders t s) (hmq : σ'._bg.mq_ = σ._bg.mq_)
    (hfunc : σ'._bg.func = σ._bg.func) (hpc : σ'.pc = σ.pc) (k : Holder ι) (b : ℕ) :
    σ'.At k b ↔ k = .sender t ∧ s.pc.held = some b ∨ k ≠ .sender t ∧ σ.At k b := by
  cases k with
  | sender t' =>
      by_cases ht : t' = t
      · subst ht
        simp [At, hsenders]
      · simp [At, hsenders, ht]
  | queue => simp [At, queued, hmq]
  | receiver => simp [At, receiving, hfunc, hpc]

theorem at_of_sender_same [DecidableEq ι] (σ : Passage ι α) {t : ι} {s : MessageSender α}
    (hsenders : σ'.senders = Function.update σ.senders t s) (hmq : σ'._bg.mq_ = σ._bg.mq_)
    (hfunc : σ'._bg.func = σ._bg.func) (hpc : σ'.pc = σ.pc)
    (hheld : s.pc.held = (σ.senders t).pc.held) (k : Holder ι) (b : ℕ) :
    σ'.At k b ↔ σ.At k b := by
  rw [at_of_sender σ hsenders hmq hfunc hpc, hheld]
  by_cases hk : k = .sender t
  · subst hk
    simp [At]
  · simp [hk]

/-- The one wrapper that a sender has. -/
theorem at_sender_iff {t : ι} {stage : SendStage} {a : ℕ} {stale : List ℕ}
    (hpc : (σ.senders t).pc = .holding stage a stale) (b : ℕ) :
    σ.At (.sender t) b ↔ b = a := by
  simp [At, hpc, SenderPc.held, eq_comm]

/-- The emptied wrappers of the senders, when one of them moves. -/
theorem stale_of_sender [DecidableEq ι] (h : Inv M σ) {t : ι} {s : MessageSender α}
    (hsenders : σ'.senders = Function.update σ.senders t s) {P : ℕ → Prop}
    (hP : ∀ b, σ.Stale b → P b) (hs : ∀ b ∈ s.pc.stale, P b) (t' : ι) :
    ∀ b ∈ (σ'.senders t').pc.stale, P b := by
  intro b hb
  by_cases ht : t' = t
  · subst ht
    rw [hsenders, Function.update_self] at hb
    exact hs b hb
  · rw [hsenders, Function.update_of_ne ht] at hb
    exact hP b (h.sender t' b hb)

section
variable [DecidableEq ι] {t : ι}

/-- A sender hands a new message over. -/
theorem Inv.hand (h : Inv M σ) (hpc : (σ.senders t).pc = .idle) {x : α} {rest : List α} :
    Inv M { σ.setSender t ⟨rest, .holding .argument σ.heap.next []⟩ with
      heap := σ.heap.alloc ⟨x⟩ σ.handed.length
      handed := σ.handed ++ [x] } := by
  set σ' : Passage ι α := { σ.setSender t ⟨rest, .holding .argument σ.heap.next []⟩ with
    heap := σ.heap.alloc ⟨x⟩ σ.handed.length
    handed := σ.handed ++ [x] } with hσ'
  have hnew : ¬ (σ.heap.Has σ.handed.length ∨ some σ.handed.length ∈ σ.arrived) := by
    rw [← h.handed]
    omega
  rw [not_or] at hnew
  have hle : ∀ i y, σ.payload i = some y → σ'.payload i = some y := by
    intro i y hy
    obtain ⟨z, hz, rfl⟩ := Option.map_eq_some_iff.mp hy
    have hlt := (List.getElem?_eq_some_iff.mp hz).1
    simp only [hσ', payload, List.getElem?_append_left hlt, hz, Option.map_some]
  have hlast : σ'.payload σ.handed.length = some ⟨x⟩ := by simp [hσ', payload]
  have hnone : ∀ b, ¬ σ.At (.sender t) b := by simp [At, hpc, SenderPc.held]
  have hAt : ∀ k b, σ'.At k b ↔ σ.At k b ∨ k = .sender t ∧ b = σ.heap.next := by
    intro k b
    refine Iff.trans (at_of_sender σ (by rfl) (by rfl) (by rfl) (by rfl) k b) ?_
    by_cases hk : k = .sender t
    · subst hk
      simp [hnone, SenderPc.held, eq_comm]
    · simp [hk]
  have hHas := h.kept.has_alloc ⟨x⟩ σ.handed.length
  have hmono {b : ℕ} (hb : σ.Stale b) : σ'.Stale b := by
    refine hb.mono (Nat.le_succ _) ?_
    intro k hk
    rcases (hAt k b).mp hk with hk' | hk'
    · exact .inl ⟨k, hk'⟩
    · exact .inr hk'.2
  constructor
  · exact (h.kept.mono hle).alloc hlast hnew.1 hAt
  · exact h.nodup
  · intro t' b hb
    refine hmono (stale_of_sender h (by rfl) (fun _ => id) ?_ t' b hb)
    intro b hb
    cases hb
  · intro b hb
    exact hmono (h.receiver b hb)
  · intro i
    have hi := h.handed i
    rw [hHas]
    simp only [hσ', List.length_append, List.length_singleton]
    change _ ↔ (_ ∨ _) ∨ some i ∈ σ.arrived
    by_cases heq : i = σ.handed.length
    · simp [heq]
    · have hiff : i < σ.handed.length + 1 ↔ i < σ.handed.length := by omega
      rw [hiff, hi]
      simp [heq]
  · intro i hi hhas
    rcases (hHas i).mp hhas with hhas' | rfl
    · exact h.apart i hi hhas'
    · exact hnew.2 hi
  · intro r hr
    obtain ⟨i, y, rfl, hi⟩ := h.received r hr
    have hlt := (List.getElem?_eq_some_iff.mp hi).1
    refine ⟨i, y, rfl, ?_⟩
    simp only [hσ', List.getElem?_append_left hlt, hi]
  · exact h.once

/-- A sender makes another wrapper. There is one to make it from. -/
theorem Inv.handOn (h : Inv M σ) (hM : M.Lossless) {stage stage' : SendStage} {a : ℕ}
    {stale : List ℕ} (hpc : (σ.senders t).pc = .holding stage a stale)
    (hstep : σ.handOn M t stage' a stale = some σ') : Inv M σ' := by
  have ha : σ.At (.sender t) a := (at_sender_iff hpc a).mpr rfl
  have hall : ∀ b, σ.At (.sender t) b → b = a := by
    intro b hb
    exact (at_sender_iff hpc b).mp hb
  unfold Passage.handOn at hstep
  obtain ⟨heap, hheap, rfl⟩ := Option.map_eq_some_iff.mp hstep
  refine h.handOver hM ha hheap ?_ h.nodup ?_ ?_ rfl rfl
  · intro k b
    refine Iff.trans (at_of_sender σ (by rfl) (by rfl) (by rfl) (by rfl) k b) ?_
    rw [h.kept.others ha hall]
    simp [SenderPc.held, eq_comm, or_comm]
  · refine stale_of_sender h (by rfl) (fun _ => .inr) ?_
    intro b hb
    rcases List.mem_cons.mp hb with hb' | hb'
    · exact .inl hb'
    · exact .inr (h.sender t b (by rw [hpc]; exact hb'))
  · intro b hb
    exact .inr (h.receiver b hb)

/-- A sender pushes the lambda. -/
theorem Inv.push (h : Inv M σ) {stage : SendStage} {a : ℕ} {stale : List ℕ}
    (hpc : (σ.senders t).pc = .holding stage a stale) :
    Inv M { σ.setSender t { σ.senders t with pc := .returning stale } with
      _bg := σ._bg.send (.work (some a)) } := by
  have ha : σ.At (.sender t) a := (at_sender_iff hpc a).mpr rfl
  have hall : ∀ b, σ.At (.sender t) b → b = a := by
    intro b hb
    exact (at_sender_iff hpc b).mp hb
  have hother : a ∉ σ.queued := by
    intro hmem
    have heq := h.kept.alone .queue (.sender t) a hmem ha
    cases heq
  refine h.give ha .queue rfl ?_ ?_ ?_ h.receiver rfl rfl
  · intro k b
    rw [h.kept.others ha hall]
    cases k with
    | sender t' =>
        by_cases ht : t' = t
        · subst ht
          simp [At, SenderPc.held]
        · simp [At, ht]
    | queue => simp [At, queued, Active.send, Callback.captured]
    | receiver => simp [At, receiving]
  · simp only [queued, Active.send, List.filterMap_append, List.filterMap_cons,
      Callback.captured, List.filterMap_nil]
    exact List.nodup_append'.mpr
      ⟨h.nodup, List.nodup_singleton a, List.disjoint_singleton.mpr hother⟩
  · refine stale_of_sender h (by rfl) (fun _ => id) ?_
    intro b hb
    exact h.sender t b (by rw [hpc]; exact hb)

/-- A sender destroys a wrapper that was emptied. -/
theorem Inv.senderFree (h : Inv M σ) {a : ℕ} {stale : List ℕ}
    (hpc : (σ.senders t).pc = .returning (a :: stale)) :
    Inv M { σ.setSender t { σ.senders t with pc := .returning stale } with
      heap := σ.heap.free a } := by
  have hstale := h.sender t
  rw [hpc] at hstale
  refine h.freeStale (hstale a List.mem_cons_self) rfl ?_ h.nodup ?_ h.receiver rfl rfl
  · exact at_of_sender_same σ (by rfl) (by rfl) (by rfl) (by rfl) (by rw [hpc]; rfl)
  · refine stale_of_sender h (by rfl) (fun _ => id) ?_
    intro b hb
    exact hstale b (List.mem_cons_of_mem a hb)

theorem Inv.idle (h : Inv M σ) (hpc : (σ.senders t).pc = .returning []) :
    Inv M (σ.setSender t { σ.senders t with pc := .idle }) := by
  refine h.keep rfl ?_ h.nodup ?_ h.receiver rfl rfl
  · exact at_of_sender_same σ (by rfl) (by rfl) (by rfl) (by rfl) (by rw [hpc]; rfl)
  · refine stale_of_sender h (by rfl) (fun _ => id) ?_
    intro b hb
    cases hb

theorem Inv.senderStep (h : Inv M σ) (hM : M.Lossless)
    (hstep : σ.senderStep M t = some σ') : Inv M σ' := by
  unfold Passage.senderStep at hstep
  split at hstep
  · next hpc =>
      split at hstep
      · cases hstep
      · obtain rfl := Option.some.inj hstep
        exact h.hand hpc
  · next stage a stale hpc =>
      split at hstep
      · exact h.handOn hM hpc hstep
      · obtain rfl := Option.some.inj hstep
        exact h.push hpc
  · next a stale hpc =>
      obtain rfl := Option.some.inj hstep
      exact h.senderFree hpc
  · next hpc =>
      obtain rfl := Option.some.inj hstep
      exact h.idle hpc

theorem Inv.elideStep (h : Inv M σ) (hstep : σ.elideStep t = some σ') : Inv M σ' := by
  unfold Passage.elideStep at hstep
  split at hstep
  · next a stale hpc =>
      obtain rfl := Option.some.inj hstep
      refine h.keep rfl ?_ h.nodup ?_ h.receiver rfl rfl
      · exact at_of_sender_same σ (by rfl) (by rfl) (by rfl) (by rfl) (by rw [hpc]; rfl)
      · refine stale_of_sender h (by rfl) (fun _ => id) ?_
        intro b hb
        exact h.sender t b (by rw [hpc]; exact hb)
  · cases hstep

theorem Inv.relocateStep (h : Inv M σ) (hM : M.Lossless)
    (hstep : σ.relocateStep M t = some σ') : Inv M σ' := by
  unfold Passage.relocateStep at hstep
  split at hstep
  · next hpc => exact h.handOn hM hpc hstep
  · cases hstep

end

/-- A callback that captures no message is sent. -/
theorem Inv.sendOther (h : Inv M σ) {c : Callback (Option ℕ)} (hc : c.captured = none) :
    Inv M { σ with _bg := σ._bg.send c } := by
  have hqueued : queued { σ with _bg := σ._bg.send c } = σ.queued := by
    simp [queued, Active.send, hc]
  refine h.keep rfl ?_ (hqueued ▸ h.nodup) h.sender h.receiver rfl rfl
  intro k b
  cases k with
  | sender t => rfl
  | queue => simp [At, hqueued]
  | receiver => rfl

/-! ## The background thread -/

/-- Who has what, when only the background thread moves. -/
theorem at_of_receiver (σ : Passage ι α) (hsenders : σ'.senders = σ.senders)
    (hmq : σ'._bg.mq_ = σ._bg.mq_) (k : Holder ι) (b : ℕ) :
    σ'.At k b ↔ k = .receiver ∧ σ'.receiving = some b ∨ k ≠ .receiver ∧ σ.At k b := by
  cases k with
  | sender t => simp [At, hsenders]
  | queue => simp [At, queued, hmq]
  | receiver => simp [At]

/-- A parameter is made from the wrapper with the message. There is one to make it from. -/
theorem Inv.call (h : Inv M σ) (hM : M.Lossless) {a calls : ℕ} {stale : List ℕ}
    (ha : σ.receiving = some a) (hstale : ∀ b ∈ stale, σ.Stale b)
    (hstep : σ.call M a calls stale = some σ') : Inv M σ' := by
  have hat : σ.At .receiver a := ha
  have hall : ∀ b, σ.At .receiver b → b = a := by
    intro b hb
    exact Option.some.inj (hb.symm.trans ha)
  unfold Passage.call at hstep
  obtain ⟨heap, hheap, rfl⟩ := Option.map_eq_some_iff.mp hstep
  refine h.handOver hM hat hheap ?_ h.nodup ?_ ?_ rfl rfl
  · intro k b
    refine Iff.trans (at_of_receiver σ (by rfl) (by rfl) k b) ?_
    rw [h.kept.others hat hall]
    simp [receiving, eq_comm, or_comm]
  · intro t b hb
    exact .inr (h.sender t b hb)
  · intro b hb
    rcases List.mem_cons.mp hb with hb' | hb'
    · exact .inl hb'
    · exact .inr (hstale b hb')

/-- A callback is taken, with the wrapper it may have captured. -/
theorem Inv.pop (h : Inv M σ) {bg : Active (Option ℕ)} (hpc : σ.pc = .run)
    (hpop : σ._bg.pop = some bg) : Inv M { σ with _bg := bg } := by
  obtain ⟨c, rest, hfunc, -, hmq, rfl⟩ := Active.pop_eq_some hpop
  have hnodup := h.nodup
  cases hc : c.captured with
  | none =>
      have hqueued : σ.queued = rest.filterMap Callback.captured := by simp [queued, hmq, hc]
      rw [hqueued] at hnodup
      refine h.keep rfl ?_ hnodup h.sender h.receiver rfl rfl
      intro k b
      cases k with
      | sender t => rfl
      | queue => simp only [At, hqueued]; rfl
      | receiver => simp [At, receiving, hpc, hfunc, hc]
  | some a =>
      have hqueued : σ.queued = a :: rest.filterMap Callback.captured := by
        simp [queued, hmq, hc]
      rw [hqueued, List.nodup_cons] at hnodup
      have ha : σ.At .queue a := by simp [At, hqueued]
      refine h.give ha .receiver rfl ?_ hnodup.2 h.sender h.receiver rfl rfl
      intro k b
      cases k with
      | sender t =>
          have hother : σ.At (.sender t) b → b ≠ a := by
            intro hb
            exact h.kept.ne ha hb (by simp)
          simp only [reduceCtorEq, false_and, or_false]
          exact ⟨fun hb => ⟨hb, hother hb⟩, And.left⟩
      | queue =>
          have hiff : b ∈ rest.filterMap Callback.captured ↔ b ∈ σ.queued ∧ b ≠ a := by
            rw [hqueued, List.mem_cons]
            constructor
            · intro hb
              refine ⟨.inr hb, ?_⟩
              rintro rfl
              exact hnodup.1 hb
            · rintro ⟨hb, hne⟩
              exact hb.resolve_left hne
          simp only [reduceCtorEq, false_and, or_false]
          exact hiff
      | receiver => simp [At, receiving, hpc, hfunc, hc, eq_comm]

/-- The background thread has no message before and after. -/
theorem Inv.withoutMessage (h : Inv M σ) (hheap : σ'.heap = σ.heap)
    (hsenders : σ'.senders = σ.senders) (hmq : σ'._bg.mq_ = σ._bg.mq_)
    (hbefore : σ.receiving = none) (hafter : σ'.receiving = none) (hstale : σ'.pc.stale = [])
    (hhanded : σ'.handed = σ.handed) (hreceived : σ'.received = σ.received) : Inv M σ' := by
  refine h.keep hheap ?_ ?_ ?_ ?_ hhanded hreceived
  · intro k b
    rw [at_of_receiver σ hsenders hmq, hafter]
    cases k with
    | sender t => simp
    | queue => simp
    | receiver => simp [At, hbefore]
  · rw [queued, hmq]
    exact h.nodup
  · rw [hsenders]
    exact h.sender
  · rw [hstale]
    nofun

/-- The last call has its message, and the message is gone with the parameter. -/
theorem Inv.body (h : Inv M σ) {a : ℕ} {stale : List ℕ} (hpc : σ.pc = .passing a 0 stale)
    {o : Object (MoveOnCopy α)} (ho : σ.heap.objects a = some o) :
    Inv M { σ with
      heap := σ.heap.free a
      received := σ.received ++ [(o.content, o.value)]
      pc := .returning stale } := by
  have hat : σ.At .receiver a := by simp [At, receiving, hpc]
  have hall : ∀ b, σ.At .receiver b → b = a := by
    intro b hb
    simpa [At, receiving, hpc, eq_comm] using hb
  obtain ⟨i, x, hx, hi⟩ := h.holds hat
  obtain rfl : o = ⟨⟨x⟩, some i⟩ := Option.some.inj (ho.symm.trans hx)
  set σ' : Passage ι α := { σ with
    heap := σ.heap.free a
    received := σ.received ++ [(some i, ⟨x⟩)]
    pc := .returning stale } with hσ'
  have hAt : ∀ k b, σ'.At k b ↔ σ.At k b ∧ b ≠ a := by
    intro k b
    refine Iff.trans (at_of_receiver σ (by rfl) (by rfl) k b) ?_
    rw [h.kept.others hat hall]
    simp [hσ', receiving]
  have harrived : σ'.arrived = σ.arrived ++ [some i] := by simp [hσ', arrived]
  have hHas := h.kept.has_free hx
  have hmono {b : ℕ} (hb : σ.Stale b) : σ'.Stale b := by
    refine hb.mono (Nat.le_refl _) ?_
    intro k hk
    exact .inl ⟨k, ((hAt k b).mp hk).1⟩
  constructor
  · exact h.kept.free hAt
  · exact h.nodup
  · intro t b hb
    exact hmono (h.sender t b hb)
  · intro b hb
    exact hmono (h.receiver b (by rw [hpc]; exact hb))
  · intro j
    rw [harrived, hHas, List.mem_append, List.mem_singleton, Option.some.injEq]
    have hj := h.handed j
    by_cases hji : j = i
    · subst hji
      simp [(List.getElem?_eq_some_iff.mp hi).1, hσ']
    · simp [hσ', hj, hji]
  · intro j hj hhas
    obtain ⟨hhas', hji⟩ := (hHas j).mp hhas
    rw [harrived, List.mem_append, List.mem_singleton, Option.some.injEq] at hj
    exact h.apart j (hj.resolve_right hji) hhas'
  · intro r hr
    rcases List.mem_append.mp hr with hr' | hr'
    · exact h.received r hr'
    · exact ⟨i, x, List.mem_singleton.mp hr', hi⟩
  · have hnot : some i ∉ σ.arrived := by
      intro hmem
      exact h.apart i hmem ⟨a, _, hx⟩
    rw [harrived]
    exact List.nodup_append'.mpr
      ⟨h.once, List.nodup_singleton _, List.disjoint_singleton.mpr hnot⟩

/-- The background thread destroys a wrapper that was emptied. -/
theorem Inv.receiverFree (h : Inv M σ) {a : ℕ} {stale : List ℕ}
    (hpc : σ.pc = .returning (a :: stale)) :
    Inv M { σ with heap := σ.heap.free a, pc := .returning stale } := by
  have hstale := h.receiver
  rw [hpc] at hstale
  refine h.freeStale (hstale a List.mem_cons_self) rfl ?_ h.nodup h.sender ?_ rfl rfl
  · intro k b
    refine Iff.trans (at_of_receiver σ (by rfl) (by rfl) k b) ?_
    cases k with
    | sender t => simp
    | queue => simp
    | receiver => simp [At, receiving, hpc]
  · intro b hb
    exact hstale b (List.mem_cons_of_mem a hb)

theorem Inv.receiverStep (h : Inv M σ) (hM : M.Lossless) {calls : ℕ}
    (hstep : σ.receiverStep M calls = some σ') : Inv M σ' := by
  unfold Passage.receiverStep at hstep
  split at hstep
  · next hpc =>
      split at hstep
      · next hfunc =>
          split at hstep
          · obtain ⟨bg, hexit, rfl⟩ := Option.map_eq_some_iff.mp hstep
            obtain ⟨-, -, -, rfl⟩ := Active.exit_eq_some hexit
            refine h.withoutMessage rfl rfl rfl ?_ ?_ ?_ rfl rfl <;>
              simp [receiving, hpc, hfunc, ReceiverPc.stale]
          · obtain ⟨bg, hpop, rfl⟩ := Option.map_eq_some_iff.mp hstep
            exact h.pop hpc hpop
      · next a hfunc =>
          have ha : σ.receiving = some a := by simp [receiving, hpc, hfunc, Callback.captured]
          exact h.call hM ha (by simp) hstep
      · next c hother hfunc =>
          obtain rfl := Option.some.inj hstep
          have hc : c.captured = none := by
            cases c with
            | work a =>
                cases a with
                | none => rfl
                | some a => exact absurd rfl (hother a)
            | done => rfl
          refine h.withoutMessage rfl rfl rfl ?_ ?_ ?_ rfl rfl
          · simp [receiving, hpc, hfunc, hc]
          · simp [receiving, hpc, Active.ret]
          · simp [hpc, ReceiverPc.stale]
  · next a n stale hpc =>
      have ha : σ.receiving = some a := by simp [receiving, hpc]
      have hstale := h.receiver
      rw [hpc] at hstale
      exact h.call hM ha hstale hstep
  · next a stale hpc =>
      obtain ⟨o, ho, rfl⟩ := Option.map_eq_some_iff.mp hstep
      exact h.body hpc ho
  · next a stale hpc =>
      obtain rfl := Option.some.inj hstep
      exact h.receiverFree hpc
  · next hpc =>
      obtain rfl := Option.some.inj hstep
      refine h.withoutMessage rfl rfl rfl ?_ ?_ rfl rfl rfl
      · simp [receiving, hpc]
      · simp [receiving, Active.ret]

theorem Inv.step [DecidableEq ι] (h : Inv M σ) (hM : M.Lossless) {calls : ℕ}
    {a : PassageAction ι} (hstep : Passage.step M calls σ a = some σ') : Inv M σ' := by
  cases a with
  | sender t => exact h.senderStep hM hstep
  | elide t => exact h.elideStep hstep
  | relocate t => exact h.relocateStep hM hstep
  | async => exact Option.some.inj hstep ▸ h.sendOther rfl
  | destroy => exact Option.some.inj hstep ▸ h.sendOther rfl
  | receiver => exact h.receiverStep hM hstep

section
variable [DecidableEq ι]

theorem inv (hM : M.Lossless) {calls : ℕ} (h : (passage ι M calls).Reachable σ) : Inv M σ := by
  refine h.invariant ?_ ?_
  · rintro _ ⟨programs, rfl⟩
    exact inv_start programs
  · intro s a s' _ _ hs hstep
    exact hs.step hM hstep

/-! ## No step is missing -/

omit [DecidableEq ι] in
/-- There is a wrapper to make the next one from. -/
theorem Inv.exists_handOver (h : Inv M σ) {k : Holder ι} {a : ℕ} (ha : σ.At k a) :
    ∃ heap, σ.heap.handOver (MoveOnCopy.construct M) a = some heap :=
  h.kept.exists_handOver ha

/-- A call of `save`, `fatal` or `Sink::send` goes on until it returns. -/
theorem Inv.exists_senderStep (h : Inv M σ) {t : ι} (hpc : (σ.senders t).pc ≠ .idle) :
    ∃ σ', σ.senderStep M t = some σ' := by
  unfold Passage.senderStep
  cases hpc' : (σ.senders t).pc with
  | idle => exact absurd hpc' hpc
  | holding stage a stale =>
      cases hstage : stage.next with
      | none => simp [hstage]
      | some stage' =>
          obtain ⟨heap, hheap⟩ := h.exists_handOver ((at_sender_iff hpc' a).mpr rfl)
          simp [hstage, Passage.handOn, hheap]
  | returning stale =>
      cases stale with
      | nil => exact ⟨_, rfl⟩
      | cons b stale => exact ⟨_, rfl⟩

omit [DecidableEq ι] in
/-- A callback that is called goes on until it returns. -/
theorem Inv.exists_receiverStep (h : Inv M σ) (calls : ℕ)
    (hrun : σ.pc = .run → σ._bg.func ≠ none) : ∃ σ', σ.receiverStep M calls = some σ' := by
  have hcall {a n : ℕ} {stale : List ℕ} (ha : σ.At .receiver a) :
      ∃ σ', σ.call M a n stale = some σ' := by
    obtain ⟨heap, hheap⟩ := h.exists_handOver ha
    simp only [Passage.call, hheap, Option.map_some]
    exact ⟨_, rfl⟩
  unfold Passage.receiverStep
  cases hpc : σ.pc with
  | run =>
      cases hfunc : σ._bg.func with
      | none => exact absurd hfunc (hrun hpc)
      | some c =>
          cases hc : c.captured with
          | none =>
              cases c with
              | done => exact ⟨_, rfl⟩
              | work a =>
                  obtain rfl : a = none := hc
                  exact ⟨_, rfl⟩
          | some a =>
              cases c with
              | done => cases hc
              | work a' =>
                  obtain rfl : a' = some a := hc
                  exact hcall (by simp [At, receiving, hpc, hfunc, Callback.captured])
  | passing a calls stale =>
      have ha : σ.At .receiver a := by simp [At, receiving, hpc]
      cases calls with
      | zero =>
          obtain ⟨i, x, hx, -⟩ := h.holds ha
          simp only [show σ.heap.objects a = _ from hx, Option.map_some]
          exact ⟨_, rfl⟩
      | succ n => exact hcall ha
  | returning stale =>
      cases stale with
      | nil => exact ⟨_, rfl⟩
      | cons b stale => exact ⟨_, rfl⟩

/-! ## Pointers to messages -/

/-- What is true of the messages that are yet to be handed over and of those that were. -/
def AllMessages (Q : α → Prop) (σ : Passage ι α) : Prop :=
  (∀ t, ∀ x ∈ (σ.senders t).program, Q x) ∧ ∀ x ∈ σ.handed, Q x

omit [DecidableEq ι] in
theorem AllMessages.of_same {Q : α → Prop} (h : AllMessages Q σ) (hhanded : σ'.handed = σ.handed)
    (hprogram : ∀ t, (σ'.senders t).program = (σ.senders t).program) : AllMessages Q σ' := by
  refine ⟨?_, ?_⟩
  · intro t
    rw [hprogram]
    exact h.1 t
  · rw [hhanded]
    exact h.2

/-- A sender that goes on keeps its program. -/
theorem program_setSender (t t' : ι) (pc : SenderPc) :
    ((σ.setSender t { σ.senders t with pc := pc }).senders t').program =
      (σ.senders t').program := by
  by_cases ht : t' = t
  · subst ht
    simp
  · simp [ht]

theorem AllMessages.handOn {Q : α → Prop} (h : AllMessages Q σ) {t : ι} {stage : SendStage}
    {a : ℕ} {stale : List ℕ} (hstep : σ.handOn M t stage a stale = some σ') :
    AllMessages Q σ' := by
  unfold Passage.handOn at hstep
  obtain ⟨heap, -, rfl⟩ := Option.map_eq_some_iff.mp hstep
  exact h.of_same rfl fun t' => program_setSender t t' _

theorem AllMessages.senderStep {Q : α → Prop} (h : AllMessages Q σ) {t : ι}
    (hstep : σ.senderStep M t = some σ') : AllMessages Q σ' := by
  unfold Passage.senderStep at hstep
  split at hstep
  · split at hstep
    · cases hstep
    · next x rest hprogram =>
        obtain rfl := Option.some.inj hstep
        have hx := h.1 t
        rw [hprogram, List.forall_mem_cons] at hx
        refine ⟨?_, ?_⟩
        · intro t'
          by_cases ht : t' = t
          · subst ht
            simpa using hx.2
          · simpa [ht] using h.1 t'
        · intro y hy
          rcases List.mem_append.mp hy with hy' | hy'
          · exact h.2 y hy'
          · exact List.mem_singleton.mp hy' ▸ hx.1
  · split at hstep
    · exact h.handOn hstep
    · obtain rfl := Option.some.inj hstep
      exact h.of_same rfl fun t' => program_setSender t t' _
  · obtain rfl := Option.some.inj hstep
    exact h.of_same rfl fun t' => program_setSender t t' _
  · obtain rfl := Option.some.inj hstep
    exact h.of_same rfl fun t' => program_setSender t t' _

omit [DecidableEq ι] in
/-- The background thread hands nothing over. -/
theorem AllMessages.receiverStep {Q : α → Prop} (h : AllMessages Q σ) {calls : ℕ}
    (hstep : σ.receiverStep M calls = some σ') : AllMessages Q σ' := by
  unfold Passage.receiverStep Passage.call at hstep
  split at hstep
  · split at hstep
    · split at hstep <;>
        obtain ⟨bg, -, rfl⟩ := Option.map_eq_some_iff.mp hstep <;>
        exact h
    · obtain ⟨heap, -, rfl⟩ := Option.map_eq_some_iff.mp hstep
      exact h
    · exact Option.some.inj hstep ▸ h
  · obtain ⟨heap, -, rfl⟩ := Option.map_eq_some_iff.mp hstep
    exact h
  · obtain ⟨o, -, rfl⟩ := Option.map_eq_some_iff.mp hstep
    exact h
  · exact Option.some.inj hstep ▸ h
  · exact Option.some.inj hstep ▸ h

theorem AllMessages.step {Q : α → Prop} (h : AllMessages Q σ) {calls : ℕ} {a : PassageAction ι}
    (hstep : Passage.step M calls σ a = some σ') : AllMessages Q σ' := by
  cases a with
  | sender t => exact h.senderStep hstep
  | elide t =>
      simp only [Passage.step, elideStep] at hstep
      split at hstep
      · obtain rfl := Option.some.inj hstep
        exact h.of_same rfl fun t' => program_setSender t t' _
      · cases hstep
  | relocate t =>
      simp only [Passage.step, relocateStep] at hstep
      split at hstep
      · exact h.handOn hstep
      · cases hstep
  | async => exact Option.some.inj hstep ▸ h
  | destroy => exact Option.some.inj hstep ▸ h
  | receiver => exact h.receiverStep hstep

/-- The callers of `save` and `fatal` hand over pointers to messages. -/
theorem allMessages_worker {β : Type} {σ : Passage ι (Option β)}
    (h : (workerPassage ι β).Reachable σ) : AllMessages (fun p => ∃ m, p = some m) σ := by
  refine h.invariant ?_ ?_
  · rintro _ ⟨programs, rfl⟩
    refine ⟨?_, nofun⟩
    intro t p hp
    obtain ⟨m, -, rfl⟩ := List.mem_map.mp hp
    exact ⟨m, rfl⟩
  · intro s a s' _ _ hs hstep
    exact hs.step hstep

theorem reachable_of_worker {β : Type} {σ : Passage ι (Option β)}
    (h : (workerPassage ι β).Reachable σ) : (passage ι (uniquePtr β) 0).Reachable σ := by
  induction h with
  | start h =>
      obtain ⟨programs, rfl⟩ := h
      exact .start ⟨_, rfl⟩
  | step _ hok hs ih => exact .step ih hok hs

omit [DecidableEq ι] in
/-- With pointers to messages handed over, whoever has a message has one. -/
theorem Inv.neverNull {β : Type} {σ : Passage ι (Option β)}
    (h : Inv (uniquePtr β) σ) (hall : AllMessages (fun p => ∃ m, p = some m) σ) :
    NeverNull σ := by
  constructor
  · apply h.alone
    intro i x _
    rfl
  · intro a i p hp
    exact hall.2 p (List.mem_of_getElem? hp.2)
  · intro a calls stale hpc
    obtain ⟨i, p, hp⟩ := h.oneOwner.parameter a calls stale hpc
    obtain ⟨m, rfl⟩ := hall.2 p (List.mem_of_getElem? hp.2)
    exact ⟨i, m, hp⟩
  · intro r hr
    obtain ⟨i, p, rfl, hp⟩ := h.received r hr
    obtain ⟨m, rfl⟩ := hall.2 p (List.mem_of_getElem? hp)
    exact ⟨i, m, rfl, hp⟩

/-! ## The result -/

/-- A message has one owner, on its way through `save` or `fatal`, where the pointer is not
null in the end and all wrappers but the owners are null, and on its way through the `send`
of a sink, where they have what a move leaves of the texts. -/
theorem one_owner :
    (∀ {β : Type} {σ : Passage ι (Option β)}, (workerPassage ι β).Reachable σ →
      OneOwner (uniquePtr β) σ ∧ NeverNull σ) ∧
    ∀ (left : String → String) (calls : ℕ) {σ : Passage ι LogMessage},
      (sinkPassage ι left calls).Reachable σ →
        OneOwner (LogMessage.moveable left) σ ∧ TextsLeft left σ := by
  constructor
  · intro β σ h
    have hinv := inv (lossless_uniquePtr β) (reachable_of_worker h)
    exact ⟨hinv.oneOwner, hinv.neverNull (allMessages_worker h)⟩
  · intro left calls σ h
    have hinv := inv (lossless_logMessage left) h
    refine ⟨hinv.oneOwner, hinv.alone ?_⟩
    intro i m hm
    exact ⟨i, m, hm, rfl⟩

end

/-- A message in the second wrapper on its way to `bgSave`, and there after another callback
has overtaken it, and one for a sink. -/
theorem one_owner_greeting :
    (∃ σ : Passage Unit (Option LogMessage), (workerPassage Unit LogMessage).Reachable σ ∧
      OneOwner (uniquePtr LogMessage) σ ∧ NeverNull σ ∧
      (σ.heap.objects 0).map (·.value._move_only) = some none ∧
      (σ.heap.objects 1).map (·.value._move_only) = some (some greeting)) ∧
    (∃ σ : Passage Unit (Option LogMessage), (workerPassage Unit LogMessage).Reachable σ ∧
      OneOwner (uniquePtr LogMessage) σ ∧ NeverNull σ ∧ σ.arrived = [some 0]) ∧
    ∃ σ : Passage Unit LogMessage, (sinkPassage Unit id 1).Reachable σ ∧
      OneOwner (LogMessage.moveable id) σ ∧ TextsLeft id σ ∧ σ.arrived = [some 0] := by
  have hstart : (workerPassage Unit LogMessage).Start (.start fun _ => [greeting].map some) :=
    ⟨fun _ => [greeting], rfl⟩
  have hstart' : (sinkPassage Unit id 1).Start (.start fun _ => [greeting]) :=
    ⟨fun _ => [greeting], rfl⟩
  have hsave : ((workerPassage Unit LogMessage).runBy (fun _ _ => true)
      (.start fun _ => [greeting].map some) [.sender (), .sender ()]).any
      (fun σ => decide ((σ.heap.objects 0).map (·.value._move_only) = some none) &&
        decide ((σ.heap.objects 1).map (·.value._move_only) = some (some greeting))) = true := by
    decide +kernel
  have hworker : ((workerPassage Unit LogMessage).runBy (fun _ _ => true)
      (.start fun _ => [greeting].map some)
      [.sender (), .sender (), .sender (), .relocate (), .sender (), .sender (), .async,
        .sender (), .receiver, .receiver, .receiver, .receiver, .receiver]).any
      (fun σ => decide (σ.arrived = [some 0])) = true := by
    decide +kernel
  have hsink : ((sinkPassage Unit id 1).runBy (fun _ _ => true) (.start fun _ => [greeting])
      [.sender (), .elide (), .sender (), .sender (), .sender (), .sender (),
        .receiver, .receiver, .receiver, .receiver]).any
      (fun σ => decide (σ.arrived = [some 0])) = true := by
    decide +kernel
  obtain ⟨σ₀, hσ₀, hwrappers⟩ := System.exists_reachableBy hstart hsave
  obtain ⟨σ, hσ, hend⟩ := System.exists_reachableBy hstart hworker
  obtain ⟨τ, hτ, hend'⟩ := System.exists_reachableBy hstart' hsink
  rw [decide_eq_true_eq] at hend hend'
  simp only [Bool.and_eq_true, decide_eq_true_eq] at hwrappers
  obtain ⟨hone₀, hnull₀⟩ := one_owner.1 hσ₀.reachable
  obtain ⟨hone, hnull⟩ := one_owner.1 hσ.reachable
  obtain ⟨hone', htexts⟩ := one_owner.2 id 1 hτ.reachable
  exact ⟨⟨σ₀, hσ₀.reachable, hone₀, hnull₀, hwrappers⟩, ⟨σ, hσ.reachable, hone, hnull, hend⟩,
    τ, hτ.reachable, hone', htexts, hend'⟩

end Passage
end G3log
