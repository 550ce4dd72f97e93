import G3log.Flush
import G3log.Futures
import G3log.Lib.Wakeups
import G3log.SinkLifetime

/-!
# Every run comes to its end

Without fatal events, the clients, the worker and the sinks make only so many steps, however
the threads take turns: a bound follows from the programs of the clients. There is no deadlock
either. When no thread can go on, each client is through with its program, or has come to an
operation that it may not make, every message saved for a sink has been logged, every future
has its result, and if somebody destroys the worker then the destructor has returned and the
sinks are gone.

## Main definitions

* `calm` -- the steps without fatal events.
* `State.toDo`, `bound` -- how many steps are left, at most.
* `Underway` -- what a client that waits is waiting for.
* `AtRest`, `comes_to_rest` -- where all runs end.
-/

namespace G3log

open Transition Broadcast

variable {T R : Type}

/-! ## Without fatal events -/

/-- The step begins no fatal event. -/
def calm (σ : State T R) : Action → Bool
  | .client c _ =>
      match (σ.clients c).pc, (σ.clients c).program with
      | .idle, .fatal _ :: _ => false
      | _, _ => true
  | .worker | .sink _ => true
  | _ => false

structure Calm (σ : State T R) : Prop where
  fatal : ∀ t, σ.fatal t = .none
  exited : σ.exited = false
  notAccepted : ¬ σ.accepted

namespace Calm
variable {σ σ' : State T R}

theorem init (programs : ClientId → List (Op T R)) (active : Bool) :
    Calm (G3log.init programs active) :=
  ⟨fun _ => rfl, rfl, fun ⟨_, hmem⟩ => by simp [G3log.init] at hmem⟩

/-- The worker's thread is in no fatal message. -/
theorem func_ne (h : Calm σ) (ho : Owned σ) (msg : FatalMessage) :
    σ.pc.func ≠ some (.work (.bgFatal msg)) := by
  intro hfunc
  exact h.notAccepted ⟨msg, Active.mem_sent_of_func (ho.worker.func.trans hfunc)⟩

theorem step (h : Calm σ) (ho : Owned σ) {a : Action} (ha : calm σ a = true) (hs : Step σ a σ') :
    Calm σ' := by
  have haccepted : ¬ σ'.accepted := by
    intro hacc
    rcases hs.accepts hacc with hold | ⟨t, msg, rfl, -⟩
    · exact h.notAccepted hold
    · simp [calm] at ha
  cases hs with
  | client _ hs =>
      cases hs with
      | fatal hpc hprogram => simp [calm, hpc, hprogram] at ha
      | _ => exact ⟨h.fatal, h.exited, haccepted⟩
  | worker _ hs =>
      cases hs with
      | exitWithDefaultSignalHandler hpc =>
          exact absurd (by rw [hpc]; rfl) (h.func_ne ho _)
      | _ => exact ⟨h.fatal, h.exited, haccepted⟩
  | sink _ hs => cases hs <;> exact ⟨h.fatal, h.exited, haccepted⟩
  | fatal | signal | raise | fault => simp [calm] at ha

/-- Without fatal events it is the threads that step. -/
theorem step_eq (h : Calm σ) {a : Action} (ha : calm σ a = true) :
    G3log.step σ a = match a with
      | .client c fresh => σ.clientStep c fresh
      | .worker => σ.workerStep
      | .sink s => σ.sinkStep s
      | _ => none := by
  cases a with
  | client | worker | sink => simp [G3log.step, h.exited, h.fatal]
  | _ => simp [calm] at ha

end Calm

/-! ## Steps left to make -/

/-- The callback that `~Active` sends. -/
def Callback.isDone {α : Type} : Callback α → Bool
  | .done => true
  | .work _ => false

theorem Callback.any_isDone_iff {α : Type} (cs : List (Callback α)) :
    cs.any isDone = true ↔ .done ∈ cs := by
  rw [List.any_eq_true]
  constructor
  · rintro ⟨c, hc, hdone⟩
    cases c with
    | done => exact hc
    | work task => simp [isDone] at hdone
  · exact fun hc => ⟨_, hc, rfl⟩

/-- For the thread of a sink two steps for each callback, and until `~Sink` begins four more: it
joins the thread, which takes its callback, runs it and ends. -/
def Sink.toDo (k : Sink T R) : ℕ :=
  2 * k._bg.mq_.length + k._bg.func.isSome.toNat +
    bif k._bg.sent.any Callback.isDone then (!k._bg.finished).toNat else 4

/-- For a callback in the queue of the worker, with at most `N` sinks. A message is sent to each
of them, which makes for two steps there. -/
def Callback.toDo (N : ℕ) : Callback WorkerTask → ℕ
  | .work (.bgSave _) => 3 * N + 2
  | .work (.addSink _) => 3
  | .work (.bgFatal _) => 0
  | .work .clearSinks | .done => 2

def WorkerPc.toDo (N : ℕ) : WorkerPc → ℕ
  | .bgSave _ i => 3 * (N - i) + 1
  | .addSink _ | .join _ _ => 2
  | .clear _ | .done => 1
  | _ => 0

/-- The destructor goes on with the vector. -/
def Role.toDo : Role → ℕ
  | .addSink | .call => 1
  | .destructor => 2

def ClientPc.toDo (N : ℕ) : ClientPc T R → ℕ
  | .idle => 0
  | .save _ => 3 * N + 3
  | .addSink _ => 7
  | .sendAdd _ => 6
  | .waitAdd _ => 2
  | .async _ _ _ => 4
  | .release _ role | .join _ role => role.toDo
  | .sendClear => 9
  | .waitClear => 6
  | .resetBg => 5
  | .joinBg => 2
  | .destroySinks => 1

def Op.toDo (N : ℕ) : Op T R → ℕ
  | .save _ => 3 * N + 4
  | .addSink _ _ => 12
  | .call _ _ => 5
  | .fatal _ => 0
  | .destroy => 10

def Client.toDo (N : ℕ) (k : Client T R) : ℕ :=
  k.pc.toDo N + (k.program.map (Op.toDo N)).sum

/-- How many steps are left, at most: by the clients of `crew`, with the sinks that have been
made. -/
def State.toDo (N : ℕ) (crew : Finset ClientId) (made : Finset SinkId) (σ : State T R) : ℕ :=
  ∑ c ∈ crew, (σ.clients c).toDo N +
    ((σ._bg.mq_.map (Callback.toDo N)).sum + (!σ._bg.finished).toNat + σ.pc.toDo N) +
    σ._sinks.length + ∑ s ∈ made, (σ.sinks s).toDo

/-- How many sinks a client is still to make. -/
def sinksOf (program : List (Op T R)) : ℕ :=
  program.countP fun
    | .addSink _ _ => true
    | _ => false

/-- How many steps the clients of `crew` can cause with their programs. -/
def bound (crew : Finset ClientId) (programs : ClientId → List (Op T R)) : ℕ :=
  ∑ c ∈ crew, ((programs c).map (Op.toDo (∑ c ∈ crew, sinksOf (programs c)))).sum + 1

/-! ### The sinks -/

theorem length_mq_send {α : Type} (c : Callback α) (a : Active α) :
    (a.send c).mq_.length = a.mq_.length + 1 := by
  simp [Active.send]

namespace Sink
variable {k k' : Sink T R}

theorem toDo_make (real_sink : T) (call : LogMessage → T → T) (c : ClientId) :
    (Sink.make real_sink call c : Sink T R).toDo = 4 := rfl

theorem toDo_work (task : SinkTask T R) (k : Sink T R) :
    { k with _bg := k._bg.send (.work task) }.toDo = k.toDo + 2 := by
  have hany : (k._bg.send (.work task)).sent.any Callback.isDone =
      k._bg.sent.any Callback.isDone := by simp [Callback.isDone]
  simp only [toDo, hany, Active.func_send, Active.finished_send, length_mq_send]
  omega

/-- With the last reference `~Sink` begins. -/
theorem toDo_close (hopen : .done ∉ k._bg.sent) (hbg : k'._bg = k._bg.send .done) :
    k'.toDo < k.toDo := by
  have hbefore : k._bg.sent.any Callback.isDone = false := by
    rw [← Bool.not_eq_true, Callback.any_isDone_iff]
    exact hopen
  have hafter : (k._bg.send .done).sent.any Callback.isDone = true := by
    rw [Callback.any_isDone_iff]
    simp
  simp only [toDo, hbg, hbefore, hafter, Active.func_send, Active.finished_send, cond_false,
    cond_true, length_mq_send]
  have := Bool.toNat_le (!k._bg.finished)
  omega

theorem toDo_turn (hsound : k._bg.Sound) {out : Option (CallId × R)}
    (hturn : k.turn = some (k', out)) : k'.toDo < k.toDo := by
  have hsent := (turn_frame hturn).2.2.2
  simp only [toDo, hsent]
  rcases bg_turn hturn with hexit | hpop | ⟨c, hfunc, hret⟩
  · obtain ⟨hfunc, hdone, hrunning, hbg⟩ := Active.exit_eq_some hexit
    have hmem := k._bg.executed_isPrefix.subset (hsound.done_iff.mp hdone)
    have hany := (Callback.any_isDone_iff _).mpr hmem
    simp [hbg, hrunning, hany]
  · obtain ⟨c, rest, hfunc, -, hmq, hbg⟩ := Active.pop_eq_some hpop
    simp only [hbg, hfunc, hmq, Option.isSome_some, Option.isSome_none, Bool.toNat_true,
      Bool.toNat_false, List.length_cons]
    omega
  · simp [hret, hfunc, Active.ret]

end Sink

/-! ### The parts of a state -/

section
variable {N : ℕ} {crew : Finset ClientId} {made : Finset SinkId} {σ σ' : State T R}

theorem sum_update {ι α : Type} [DecidableEq ι] {I : Finset ι} {i : ι} (hi : i ∈ I) (w : α → ℕ)
    (f : ι → α) (x : α) :
    ∑ j ∈ I, w (Function.update f i x j) + w (f i) = ∑ j ∈ I, w (f j) + w x := by
  have hsum := Monitors.sum_eq_of_update (f := fun j => w (f j))
    (g := fun j => w (Function.update f i x j)) hi fun j hj => by rw [Function.update_of_ne hj]
  rwa [Function.update_self] at hsum

theorem toDo_setClient (N : ℕ) (made : Finset SinkId) {c : ClientId} (hc : c ∈ crew)
    (k : Client T R) (σ : State T R) :
    (σ.setClient c k).toDo N crew made + (σ.clients c).toDo N = σ.toDo N crew made + k.toDo N := by
  have hsum := sum_update hc (Client.toDo N) σ.clients k
  simp only [State.toDo, State.setClient]
  omega

theorem toDo_setSink (N : ℕ) (crew : Finset ClientId) {s : SinkId} (hs : s ∈ made)
    (k : Sink T R) (σ : State T R) :
    (σ.setSink s k).toDo N crew made + (σ.sinks s).toDo = σ.toDo N crew made + k.toDo := by
  have hsum := sum_update hs Sink.toDo σ.sinks k
  simp only [State.toDo, State.setSink]
  omega

/-- A reference more or less is nothing to do. -/
theorem toDo_setSink_eq {s : SinkId} {k : Sink T R} {σ : State T R}
    (hk : k.toDo = (σ.sinks s).toDo) :
    (σ.setSink s k).toDo N crew made = σ.toDo N crew made := by
  have hsum : ∑ s' ∈ made, (Function.update σ.sinks s k s').toDo =
      ∑ s' ∈ made, (σ.sinks s').toDo := by
    refine Finset.sum_congr rfl fun s' _ => ?_
    by_cases hs : s' = s
    · subst hs
      rwa [Function.update_self]
    · rw [Function.update_of_ne hs]
  simp only [State.toDo, State.setSink, hsum]

theorem toDo_setSink_insert (N : ℕ) (crew : Finset ClientId) {s : SinkId} (hs : s ∉ made)
    (k : Sink T R) (σ : State T R) :
    (σ.setSink s k).toDo N crew (insert s made) = σ.toDo N crew made + k.toDo := by
  have hsum : ∑ s' ∈ made, (Function.update σ.sinks s k s').toDo =
      ∑ s' ∈ made, (σ.sinks s').toDo := by
    refine Finset.sum_congr rfl fun s' hs' => ?_
    rw [Function.update_of_ne]
    rintro rfl
    exact hs hs'
  simp only [State.toDo, State.setSink, Finset.sum_insert hs, Function.update_self, hsum]
  omega

theorem toDo_sendBg (N : ℕ) (crew : Finset ClientId) (made : Finset SinkId)
    (task : Callback WorkerTask) (σ : State T R) :
    (σ.sendBg task).toDo N crew made = σ.toDo N crew made + task.toDo N := by
  simp only [State.toDo, State.sendBg, Active.send, List.map_append, List.sum_append,
    List.map_cons, List.map_nil, List.sum_cons, List.sum_nil]
  omega

theorem toDo_tail (N : ℕ) (crew : Finset ClientId) (made : Finset SinkId) {s : SinkId}
    {rest : List SinkId} (hsinks : σ._sinks = s :: rest) :
    State.toDo N crew made { σ with _sinks := rest } + 1 = σ.toDo N crew made := by
  simp only [State.toDo, hsinks, List.length_cons]
  omega

/-- A client goes on with its operation. -/
theorem toDo_goto (N : ℕ) (made : Finset SinkId) (σ : State T R) {c : ClientId} (hc : c ∈ crew)
    {pc : ClientPc T R} (hpc : (σ.clients c).pc = pc) (pc' : ClientPc T R) :
    (σ.goto c pc').toDo N crew made + pc.toDo N = σ.toDo N crew made + pc'.toDo N := by
  have hclient := toDo_setClient N made hc { σ.clients c with pc := pc' } σ
  simp only [Client.toDo, hpc] at hclient
  simp only [State.goto]
  omega

/-- `~Sink` is through. -/
theorem toDo_destroySink (s : SinkId) (σ : State T R) :
    (σ.destroySink s).toDo N crew made = σ.toDo N crew made :=
  toDo_setSink_eq (k := { σ.sinks s with _real_sink := none }) rfl

/-- A client has dropped a reference. -/
theorem toDo_afterRelease {c : ClientId} (hc : c ∈ crew) {s : SinkId} {role : Role}
    {σ : State T R} (hpc : (σ.clients c).pc = .release s role ∨ (σ.clients c).pc = .join s role) :
    (σ.afterRelease c s role).toDo N crew made < σ.toDo N crew made := by
  let k : Sink T R :=
    { σ.sinks s with handle := (σ.sinks s).handle || decide (role = .addSink) }
  have hsink : (σ.setSink s k).toDo N crew made = σ.toDo N crew made := toDo_setSink_eq rfl
  have hclient (pc : ClientPc T R) :
      ((σ.setSink s k).goto c pc).toDo N crew made + role.toDo =
        σ.toDo N crew made + pc.toDo N := by
    rw [← hsink]
    rcases hpc with hpc | hpc
    · exact toDo_goto N made (σ.setSink s k) hc hpc pc
    · exact toDo_goto N made (σ.setSink s k) hc hpc pc
  cases role with
  | addSink | call =>
      have := hclient .idle
      simp only [ClientPc.toDo, Role.toDo] at this
      change ((σ.setSink s k).goto c .idle).toDo N crew made < _
      omega
  | destructor =>
      have := hclient .destroySinks
      simp only [ClientPc.toDo, Role.toDo] at this
      change ((σ.setSink s k).goto c .destroySinks).toDo N crew made < _
      omega

/-! ### What a step leaves to do -/

/-- A client begins with an operation. -/
theorem toDo_begin (N : ℕ) (made : Finset SinkId) (σ : State T R) {c : ClientId} (hc : c ∈ crew)
    {op : Op T R} {rest : List (Op T R)} (hpc : (σ.clients c).pc = .idle)
    (hprogram : (σ.clients c).program = op :: rest) {k : Client T R} (hrest : k.program = rest) :
    (σ.setClient c k).toDo N crew made + op.toDo N = σ.toDo N crew made + k.pc.toDo N := by
  have hclient := toDo_setClient N made hc k σ
  have hidle : ClientPc.toDo N (.idle : ClientPc T R) = 0 := rfl
  simp only [Client.toDo, hpc, hprogram, hrest, hidle, List.map_cons, List.sum_cons] at hclient
  omega

theorem toDo_begin_lt (σ : State T R) {c : ClientId} (hc : c ∈ crew) {op : Op T R}
    {rest : List (Op T R)} (hpc : (σ.clients c).pc = .idle)
    (hprogram : (σ.clients c).program = op :: rest) {k : Client T R} (hrest : k.program = rest)
    (hlt : k.pc.toDo N < op.toDo N) :
    (σ.setClient c k).toDo N crew made < σ.toDo N crew made := by
  have hbegin := toDo_begin N made σ hc hpc hprogram hrest
  omega

/-- A client goes on, and sends something to the worker. -/
theorem toDo_send {c : ClientId} (hc : c ∈ crew) {pc pc' : ClientPc T R}
    (hpc : (σ.clients c).pc = pc) {task : Callback WorkerTask}
    (hlt : task.toDo N + pc'.toDo N < pc.toDo N) :
    ((σ.sendBg task).goto c pc').toDo N crew made < σ.toDo N crew made := by
  have hclient := toDo_goto N made (σ.sendBg task) hc hpc pc'
  have hsend := toDo_sendBg N crew made task σ
  omega

/-- A client goes on, and something happens to a sink. -/
theorem toDo_both (N : ℕ) (σ : State T R) {c : ClientId} (hc : c ∈ crew) {s : SinkId}
    (hs : s ∈ made) {pc : ClientPc T R} (hpc : (σ.clients c).pc = pc) (k : Sink T R)
    (pc' : ClientPc T R) :
    ((σ.setSink s k).goto c pc').toDo N crew made + (σ.sinks s).toDo + pc.toDo N =
      σ.toDo N crew made + k.toDo + pc'.toDo N := by
  have hclient := toDo_goto N made (σ.setSink s k) hc hpc pc'
  have hsink := toDo_setSink N crew hs k σ
  omega

/-- Every step of a client uses up some of what it has to do. -/
theorem ClientStep.toDo_lt {c : ClientId} {fresh : SinkId} (hs : ClientStep c fresh σ σ')
    (ho : Owned σ) (hc : c ∈ crew) (hmade : ∀ s, (σ.sinks s).created = true → s ∈ made)
    (hmakes : σ.makes c = false) (hcalm : calm σ (.client c fresh) = true) :
    σ'.toDo N crew made < σ.toDo N crew made := by
  have hgoto {pc pc' : ClientPc T R} (hpc : (σ.clients c).pc = pc)
      (hlt : pc'.toDo N < pc.toDo N) : (σ.goto c pc').toDo N crew made < σ.toDo N crew made := by
    have := toDo_goto N made σ hc hpc pc'
    omega
  cases hs with
  | save hpc hprogram | destroy hpc hprogram =>
      exact toDo_begin_lt σ hc hpc hprogram rfl (by simp [ClientPc.toDo, Op.toDo])
  | @lock s func rest hpc hprogram hhandle hstrong =>
      have hsink : (σ.setSink s { σ.sinks s with
          temps := insert c (σ.sinks s).temps }).toDo N crew made = σ.toDo N crew made :=
        toDo_setSink_eq rfl
      rw [← hsink]
      refine toDo_begin_lt (σ.setSink s _) hc hpc hprogram rfl ?_
      simp [ClientPc.toDo, Op.toDo]
  | gone hpc hprogram =>
      exact toDo_begin_lt σ (k := { σ.clients c with program := _, calls := _ }) hc hpc hprogram rfl
        (by simp [hpc, ClientPc.toDo, Op.toDo])
  | make hpc hprogram => simp [State.makes, hpc, hprogram] at hmakes
  | fatal hpc hprogram => simp [calm, hpc, hprogram] at hcalm
  | sendSave hpc | sendAdd hpc | sendClear hpc | resetBg hpc =>
      exact toDo_send hc hpc (by simp [ClientPc.toDo, Callback.toDo])
  | readBg hpc | readNull hpc | waitAdd hpc | waitClear hpc | joinBg hpc | destroyEnd hpc =>
      exact hgoto hpc (by simp [ClientPc.toDo, Role.toDo])
  | @async s id func hpc =>
      have hcreated := ho.held.created (c := c) (s := s) (by rw [hpc]; rfl)
      have hboth := toDo_both N σ hc (hmade s hcreated) hpc ((σ.sinks s).async id func)
        (.release s .call)
      simp only [Sink.async, Sink.toDo_work, ClientPc.toDo, Role.toDo] at hboth
      change ((σ.setSink s ((σ.sinks s).async id func)).goto c _).toDo N crew made < _
      simp only [Sink.async]
      omega
  | @releaseShared s role hpc =>
      have hsink : (σ.setSink s { σ.sinks s with
          temps := (σ.sinks s).temps.erase c }).toDo N crew made = σ.toDo N crew made :=
        toDo_setSink_eq rfl
      rw [← hsink]
      exact toDo_afterRelease hc (.inl hpc)
  | @releaseLast s role hpc =>
      have hheld := ho.strong_of_holds (c := c) (s := s) (by rw [hpc]; rfl)
      have hcreated := ho.held.created (c := c) (s := s) (by rw [hpc]; rfl)
      let k : Sink T R := { (σ.sinks s).close with temps := (σ.sinks s).temps.erase c }
      have hclose : k.toDo < _ := Sink.toDo_close ((ho.life s).still_open (.inr hheld)) rfl
      have hboth := toDo_both N σ hc (hmade s hcreated) hpc k (.join s role)
      simp only [ClientPc.toDo] at hboth
      change ((σ.setSink s k).goto c _).toDo N crew made < _
      omega
  | @join s role hpc =>
      rw [← toDo_destroySink s σ]
      exact toDo_afterRelease hc (.inr hpc)
  | destroyShared hpc hsinks =>
      have := toDo_tail N crew made hsinks
      omega
  | @destroyLast s rest hpc hsinks =>
      have hvector : s ∈ σ._sinks := by simp [hsinks]
      have hclose : (σ.sinks s).close.toDo < _ :=
        Sink.toDo_close ((ho.life s).still_open (.inr (.inl hvector))) rfl
      have htail := toDo_tail N crew made hsinks
      have hboth := toDo_both N { σ with _sinks := rest } hc
        (hmade s (ho.registered.vector_created hvector)) hpc (σ.sinks s).close
        (.join s .destructor)
      simp only [ClientPc.toDo, Role.toDo] at hboth
      change (({ σ with _sinks := rest }.setSink s (σ.sinks s).close).goto c _).toDo N crew made < _
      omega

theorem toDo_pc (N : ℕ) (crew : Finset ClientId) (made : Finset SinkId) (σ : State T R)
    {pc : WorkerPc} (hpc : σ.pc = pc) (pc' : WorkerPc) :
    State.toDo N crew made { σ with pc := pc' } + pc.toDo N =
      σ.toDo N crew made + pc'.toDo N := by
  simp only [State.toDo, hpc]
  omega

/-- A callback of the worker returns. -/
theorem toDo_ret (N : ℕ) (crew : Finset ClientId) (made : Finset SinkId) {pc : WorkerPc}
    (hpc : σ.pc = pc) :
    σ.ret.toDo N crew made + pc.toDo N = σ.toDo N crew made := by
  have hmq : σ._bg.ret.mq_ = σ._bg.mq_ := rfl
  have hfinished : σ._bg.ret.finished = σ._bg.finished := rfl
  simp only [State.toDo, State.ret, hpc, hmq, hfinished, WorkerPc.toDo]
  omega

/-- So does every step of the worker's thread, as long as it is in no fatal message. -/
theorem WorkerStep.toDo_lt (hs : WorkerStep σ σ') (h : Calm σ) (ho : Owned σ)
    (hmade : ∀ s, (σ.sinks s).created = true → s ∈ made) (hN : σ._sinks.length ≤ N) :
    σ'.toDo N crew made < σ.toDo N crew made := by
  have hfatal {msg : FatalMessage} (hfunc : σ.pc.func = some (.work (.bgFatal msg))) : False :=
    h.func_ne ho msg hfunc
  cases hs with
  | exit hpc hexit =>
      obtain ⟨-, -, hrunning, rfl⟩ := Active.exit_eq_some hexit
      simp [State.toDo, hrunning]
  | @pop bg c hpc hpop hfunc =>
      obtain ⟨c', rest, -, -, hmq, rfl⟩ := Active.pop_eq_some hpop
      obtain rfl := Option.some.inj hfunc
      have htask : (State.enter c').toDo N < c'.toDo N := by
        cases c' with
        | done => simp [State.enter, WorkerPc.toDo, Callback.toDo]
        | work task =>
            cases task with
            | bgFatal msg => exact absurd ⟨msg, by simp [Active.sent, hmq]⟩ h.notAccepted
            | _ => simp [State.enter, WorkerPc.toDo, Callback.toDo]
      have hrun : WorkerPc.toDo N .run = 0 := rfl
      simp only [State.toDo, hpc, hmq, hrun, List.map_cons, List.sum_cons]
      omega
  | @bgSave msg i s hpc hs =>
      have hi : i < σ._sinks.length := (List.getElem?_eq_some_iff.mp hs).1
      have hcreated := ho.registered.vector_created (List.mem_of_getElem? hs)
      have hsink := toDo_setSink N crew (hmade s hcreated)
        ((σ.sinks s).send msg) σ
      have hgoto := toDo_pc N crew made
        (σ.setSink s ((σ.sinks s).send msg)) hpc (.bgSave msg (i + 1))
      simp only [Sink.send, Sink.toDo_work, WorkerPc.toDo] at hsink hgoto
      simp only [Sink.send]
      omega
  | bgSaveEnd hpc | clearEnd hpc | done hpc =>
      have hret := toDo_ret N crew made hpc
      simp only [WorkerPc.toDo] at hret
      omega
  | @addSink s hpc =>
      have hret := toDo_ret N crew made hpc
      have hvector : State.toDo N crew made { σ.ret with _sinks := σ._sinks ++ [s] } =
          σ.ret.toDo N crew made + 1 := by
        simp only [State.toDo, State.ret, List.length_append, List.length_singleton]
        omega
      simp only [WorkerPc.toDo] at hret
      omega
  | clearShared hpc hsinks =>
      have htail := toDo_tail N crew made hsinks
      omega
  | @clearLast fatal s rest hpc hsinks =>
      have hvector : s ∈ σ._sinks := by simp [hsinks]
      have hclose : (σ.sinks s).close.toDo < _ :=
        Sink.toDo_close ((ho.life s).still_open (.inr (.inl hvector))) rfl
      let σ₁ : State T R := { σ with _sinks := rest }
      let σ₂ : State T R := σ₁.setSink s (σ.sinks s).close
      have htail : σ₁.toDo N crew made + 1 = σ.toDo N crew made :=
        toDo_tail N crew made hsinks
      have hsink : σ₂.toDo N crew made + (σ.sinks s).toDo = _ :=
        toDo_setSink N crew (hmade s (ho.registered.vector_created hvector)) _ σ₁
      have hgoto : State.toDo N crew made { σ₂ with pc := .join s fatal } + _ = _ :=
        toDo_pc N crew made σ₂ hpc _
      simp only [WorkerPc.toDo] at hgoto
      change State.toDo N crew made { σ₂ with pc := .join s fatal } < _
      omega
  | @join s fatal hpc =>
      let σ₁ : State T R := σ.destroySink s
      have hdestroy : σ₁.toDo N crew made = σ.toDo N crew made := toDo_destroySink s σ
      have hgoto : State.toDo N crew made { σ₁ with pc := .clear fatal } + _ = _ :=
        toDo_pc N crew made σ₁ hpc _
      simp only [WorkerPc.toDo] at hgoto
      change State.toDo N crew made { σ₁ with pc := .clear fatal } < _
      omega
  | shutDownLogging hpc | bgFatal hpc | bgFatalEnd hpc | clearEndFatal hpc
  | exitWithDefaultSignalHandler hpc => exact (hfatal (by rw [hpc]; rfl)).elim

/-- And every turn of the thread of a sink. -/
theorem SinkStep.toDo_lt {s : SinkId} (hs : SinkStep s σ σ') (ho : Owned σ)
    (hmade : ∀ s, (σ.sinks s).created = true → s ∈ made) :
    σ'.toDo N crew made < σ.toDo N crew made := by
  cases hs with
  | @turn k hcreated hturn | @value k _ _ hcreated hturn =>
      have hlt := Sink.toDo_turn (ho.life s).sound hturn
      have hsink := toDo_setSink N crew (hmade s hcreated) k σ
      change (σ.setSink s k).toDo N crew made < _
      omega

/-- A client makes a sink. -/
theorem ClientStep.toDo_make {c : ClientId} {fresh : SinkId} (hs : ClientStep c fresh σ σ')
    (hc : c ∈ crew) (hmade : ∀ s, s ∈ made ↔ (σ.sinks s).created = true)
    (hmakes : σ.makes c = true) : (σ.sinks fresh).created = false ∧
      (σ'.sinks fresh).created = true ∧
        σ'.toDo N crew (insert fresh made) < σ.toDo N crew made := by
  cases hs with
  | @make real_sink call rest hpc hprogram hfresh =>
      have hnot : fresh ∉ made := by simp [hmade, hfresh]
      have hsink := toDo_setSink_insert N crew hnot (.make real_sink call c) σ
      let k : Client T R := { σ.clients c with program := rest, pc := .addSink fresh }
      have hbegin := toDo_begin N (insert fresh made)
        (σ.setSink fresh (.make real_sink call c)) hc hpc hprogram (k := k) rfl
      have hpc' : k.pc.toDo N = 7 := rfl
      rw [hpc', Op.toDo] at hbegin
      rw [Sink.toDo_make] at hsink
      refine ⟨hfresh, by simp [Sink.make], ?_⟩
      change ((σ.setSink fresh (.make real_sink call c)).setClient c k).toDo N crew _ < _
      omega
  | save _ hprogram | lock _ hprogram | gone _ hprogram | fatal _ hprogram
  | destroy _ hprogram => simp [State.makes, hprogram] at hmakes
  | destroyShared hpc => simp [State.makes, hpc] at hmakes
  | _ hpc => simp [State.makes, hpc] at hmakes

/-! ## Runs are bounded -/

/-- With each sink that it makes a client has one less to make. -/
theorem ClientStep.sinksOf_eq {c : ClientId} {fresh : SinkId} (hs : ClientStep c fresh σ σ') :
    sinksOf (σ'.clients c).program + (σ.makes c).toNat = sinksOf (σ.clients c).program := by
  cases hs with
  | save hpc hprogram | make hpc hprogram | lock hpc hprogram | gone hpc hprogram
  | fatal hpc hprogram | destroy hpc hprogram =>
      simp [sinksOf, State.makes, hpc, hprogram]
  | destroyShared hpc => simp [State.makes, hpc]
  | _ hpc => simp [sinksOf, State.makes, State.afterRelease, State.destroySink, hpc]

end

/-- Only the clients of `crew` have something to do. With the sinks that have been made and those
that are still to be made there are at most `N`, and at most `k` steps are left. -/
structure Within (N : ℕ) (crew : Finset ClientId) (k : ℕ) (σ : State T R) : Prop where
  owned : Owned σ
  calm : Calm σ
  others : ∀ c ∉ crew, (σ.clients c).pc = .idle ∧ (σ.clients c).program = []
  left : ∃ made : Finset SinkId, (∀ s, s ∈ made ↔ (σ.sinks s).created = true) ∧
    made.card + ∑ c ∈ crew, sinksOf (σ.clients c).program ≤ N ∧ σ.toDo N crew made ≤ k

namespace Within
variable {N k : ℕ} {crew : Finset ClientId} {σ σ' : State T R}

theorem mem_crew (h : Within N crew k σ) {c : ClientId} {fresh : SinkId}
    (hs : ClientStep c fresh σ σ') : c ∈ crew := by
  by_contra hc
  obtain ⟨hpc, hprogram⟩ := h.others c hc
  cases hs with
  | save _ hprogram' | make _ hprogram' | lock _ hprogram' | gone _ hprogram'
  | fatal _ hprogram' | destroy _ hprogram' => simp [hprogram] at hprogram'
  | destroyShared hpc' => simp [hpc] at hpc'
  | _ hpc' => simp [hpc] at hpc'

theorem clientStep (h : Within N crew k σ) {c : ClientId} {fresh : SinkId}
    (ha : G3log.calm σ (.client c fresh) = true) (hs : Step σ (.client c fresh) σ') :
    ∃ k' < k, Within N crew k' σ' := by
  obtain ⟨made, hmade, hN, hk⟩ := h.left
  have hcalm := h.calm.step h.owned ha hs
  have howned := h.owned.step hs
  have hcreated (s : SinkId) (hs' : s = fresh → σ.makes c = false) :
      (σ'.sinks s).created = (σ.sinks s).created :=
    hs.created_eq_of_makes fun c' heq => by
      obtain ⟨rfl, rfl⟩ := Action.client.inj heq
      exact hs' rfl
  cases hs with
  | client _ hs =>
      have hc := h.mem_crew hs
      have hothers : ∀ c' ∉ crew, (σ'.clients c').pc = .idle ∧ (σ'.clients c').program = [] := by
        intro c' hc'
        rw [hs.clients_of_ne (by rintro rfl; exact hc' hc)]
        exact h.others c' hc'
      have hprogram := hs.sinksOf_eq
      have hsinks := Monitors.sum_eq_of_update (f := fun c => sinksOf (σ.clients c).program)
        (g := fun c => sinksOf (σ'.clients c).program) hc
        fun c' hc' => by rw [hs.clients_of_ne hc']
      cases hmakes : σ.makes c with
      | true =>
          obtain ⟨hfresh, hnew, hlt⟩ := hs.toDo_make (N := N) hc hmade hmakes
          have hnot : fresh ∉ made := by simp [hmade, hfresh]
          refine ⟨_, lt_of_lt_of_le hlt hk, howned, hcalm, hothers, insert fresh made, fun s => ?_,
            ?_, le_rfl⟩
          · by_cases hs' : s = fresh
            · subst hs'
              simp [hnew]
            · rw [Finset.mem_insert, hmade, hcreated s fun heq => absurd heq hs']
              simp [hs']
          · rw [hmakes, Bool.toNat_true] at hprogram
            rw [Finset.card_insert_of_notMem hnot]
            omega
      | false =>
          have hlt := hs.toDo_lt (N := N) h.owned hc (fun s => (hmade s).mpr) hmakes ha
          refine ⟨_, lt_of_lt_of_le hlt hk, howned, hcalm, hothers, made, fun s => ?_, ?_, le_rfl⟩
          · rw [hcreated s fun _ => hmakes]
            exact hmade s
          · rw [hmakes, Bool.toNat_false] at hprogram
            omega

/-- The vector has no more sinks than have been made. -/
theorem length_le (h : Within N crew k σ) {made : Finset SinkId}
    (hmade : ∀ s, s ∈ made ↔ (σ.sinks s).created = true) : σ._sinks.length ≤ made.card := by
  rw [← List.toFinset_card_of_nodup h.owned.registered.nodup]
  refine Finset.card_le_card fun s hs => (hmade s).mpr ?_
  exact h.owned.registered.vector_created (List.mem_toFinset.mp hs)

/-- A step of the worker or of a sink. -/
theorem otherStep (h : Within N crew k σ) {a : Action} (ha : G3log.calm σ a = true)
    (hs : Step σ a σ') (hmover : a.mover = none)
    (hlt : ∀ made : Finset SinkId, (∀ s, s ∈ made ↔ (σ.sinks s).created = true) →
      made.card ≤ N → σ'.toDo N crew made < σ.toDo N crew made) :
    ∃ k' < k, Within N crew k' σ' := by
  obtain ⟨made, hmade, hN, hk⟩ := h.left
  have hclients : σ'.clients = σ.clients := by
    funext c
    exact hs.clients_eq (by simp [hmover])
  have hcreated (s : SinkId) : (σ'.sinks s).created = (σ.sinks s).created :=
    hs.created_eq fun c heq => by simp [heq, Action.mover] at hmover
  refine ⟨_, lt_of_lt_of_le (hlt made hmade (by omega)) hk, h.owned.step hs,
    h.calm.step h.owned ha hs, ?_, made, fun s => ?_, ?_, le_rfl⟩
  · rw [hclients]
    exact h.others
  · rw [hcreated]
    exact hmade s
  · rwa [hclients]

theorem step (h : Within N crew k σ) {a : Action} (ha : G3log.calm σ a = true)
    (hs : Step σ a σ') : ∃ k' < k, Within N crew k' σ' := by
  cases hs with
  | client hfatal hs => exact h.clientStep ha (.client hfatal hs)
  | worker hfatal hs =>
      refine h.otherStep ha (.worker hfatal hs) rfl fun made hmade hN => ?_
      exact hs.toDo_lt h.calm h.owned (fun s => (hmade s).mpr) ((h.length_le hmade).trans hN)
  | sink hfatal hs =>
      refine h.otherStep ha (.sink hfatal hs) rfl fun made hmade _ => ?_
      exact hs.toDo_lt h.owned fun s => (hmade s).mpr
  | fatal | signal | raise | fault => simp [G3log.calm] at ha

theorem init {programs : ClientId → List (Op T R)} (hcrew : ∀ c ∉ crew, programs c = [])
    (active : Bool) :
    Within (∑ c ∈ crew, sinksOf (programs c)) crew (bound crew programs)
      (G3log.init programs active) where
  owned := Owned.init programs active
  calm := Calm.init programs active
  others := fun c hc => ⟨rfl, hcrew c hc⟩
  left := by
    refine ⟨∅, by simp [G3log.init, Sink.unmade], by simp [G3log.init], ?_⟩
    simp [State.toDo, bound, G3log.init, Active.createActive, Client.toDo, ClientPc.toDo,
      WorkerPc.toDo]

end Within

/-! ## What is being waited for -/

/-- The callback of the worker that a client waits for. -/
def ClientPc.awaits : ClientPc T R → Option (Callback WorkerTask)
  | .waitAdd s => some (.work (.addSink s))
  | .waitClear => some (.work .clearSinks)
  | .joinBg => some .done
  | _ => none

/-- What a client waits for has been sent, and the destructor does not leave off. -/
structure Underway (σ : State T R) : Prop where
  sent : ∀ c task, (σ.clients c).pc.awaits = some task → task ∈ σ._bg.sent
  closed : .done ∈ σ._bg.sent → σ.bgDeleted = true ∨ ∃ c, (σ.clients c).pc = .joinBg
  begun : σ.destroying = true → σ.destroyed = true ∨ ∃ c, (σ.clients c).pc.destructs = true

namespace Underway
variable {σ σ' : State T R}

/-- The clients stay where they are. -/
theorem frame (h : Underway σ) (hclients : σ'.clients = σ.clients)
    (hsent : σ._bg.sent <+: σ'._bg.sent) (hdone : .done ∈ σ'._bg.sent → .done ∈ σ._bg.sent)
    (hdeleted : σ'.bgDeleted = σ.bgDeleted)
    (hdestroy : σ'.destroying = σ.destroying ∧ σ'.destroyed = σ.destroyed) : Underway σ' where
  sent := by
    rw [hclients]
    exact fun c task hc => hsent.subset (h.sent c task hc)
  closed := by
    rw [hclients, hdeleted]
    exact fun hmem => h.closed (hdone hmem)
  begun := by
    rw [hclients, hdestroy.1, hdestroy.2]
    exact h.begun

/-- One client goes on. -/
theorem move (h : Underway σ) {c : ClientId}
    (hothers : ∀ c', c' ≠ c → σ'.clients c' = σ.clients c')
    (hsent : σ._bg.sent <+: σ'._bg.sent)
    (hawaits : ∀ task, (σ'.clients c).pc.awaits = some task → task ∈ σ'._bg.sent)
    (hclosed : .done ∈ σ'._bg.sent → σ'.bgDeleted = true ∨ (σ'.clients c).pc = .joinBg ∨
      .done ∈ σ._bg.sent ∧ (σ.clients c).pc ≠ .joinBg ∧ σ'.bgDeleted = σ.bgDeleted)
    (hbegun : σ'.destroying = true → σ'.destroyed = true ∨ (σ'.clients c).pc.destructs = true ∨
      σ.destroying = true ∧ (σ.clients c).pc.destructs = false ∧ σ'.destroyed = σ.destroyed) :
    Underway σ' where
  sent := by
    intro c' task hc'
    by_cases hcc : c' = c
    · subst hcc
      exact hawaits task hc'
    · rw [hothers c' hcc] at hc'
      exact hsent.subset (h.sent c' task hc')
  closed := by
    intro hmem
    rcases hclosed hmem with hdel | hjoin | ⟨hbefore, hpc, hdel⟩
    · exact .inl hdel
    · exact .inr ⟨c, hjoin⟩
    · rcases h.closed hbefore with hdel' | ⟨c', hc'⟩
      · exact .inl (hdel.trans hdel')
      · refine .inr ⟨c', ?_⟩
        rwa [hothers c' (by rintro rfl; exact hpc hc')]
  begun := by
    intro hdestroying
    rcases hbegun hdestroying with hend | hdes | ⟨hbefore, hpc, hend⟩
    · exact .inl hend
    · exact .inr ⟨c, hdes⟩
    · rcases h.begun hbefore with hend' | ⟨c', hc'⟩
      · exact .inl (hend.trans hend')
      · refine .inr ⟨c', ?_⟩
        rwa [hothers c' (by rintro rfl; simp [hpc] at hc')]

theorem clientStep (h : Underway σ) {c : ClientId} {fresh : SinkId}
    (hs : ClientStep c fresh σ σ') : Underway σ' := by
  have hothers : ∀ c', c' ≠ c → σ'.clients c' = σ.clients c' := fun _ hc => hs.clients_of_ne hc
  cases hs with
  | sendSave hpc | sendAdd hpc =>
      refine h.move hothers (by simp) ?_ (fun hmem => .inr (.inr ⟨?_, ?_, rfl⟩))
        fun hd => .inr (.inr ⟨hd, ?_, rfl⟩)
      · simp [ClientPc.awaits]
      · simpa using hmem
      · simp [hpc]
      · simp [hpc, ClientPc.destructs]
  | sendClear hpc =>
      refine h.move hothers (by simp) ?_ (fun hmem => .inr (.inr ⟨?_, ?_, rfl⟩))
        fun hd => .inr (.inl ?_)
      · simp [ClientPc.awaits]
      · simpa using hmem
      · simp [hpc]
      · simp [ClientPc.destructs]
  | resetBg hpc =>
      refine h.move hothers (by simp) ?_ (fun _ => .inr (.inl ?_)) fun hd => .inr (.inl ?_)
      · simp [ClientPc.awaits]
      · simp
      · simp [ClientPc.destructs]
  | joinBg hpc =>
      refine h.move hothers List.prefix_rfl ?_ (fun _ => .inl rfl) fun _ => .inr (.inl ?_)
      · simp [ClientPc.awaits]
      · simp [ClientPc.destructs]
  | destroyEnd hpc =>
      refine h.move hothers List.prefix_rfl ?_ (fun hmem => .inr (.inr ⟨hmem, ?_, rfl⟩))
        fun _ => .inl rfl
      · simp [ClientPc.awaits]
      · simp [hpc]
  | destroy hpc =>
      refine h.move hothers List.prefix_rfl ?_ (fun hmem => .inr (.inr ⟨hmem, ?_, rfl⟩))
        fun _ => .inr (.inl ?_)
      · simp [ClientPc.awaits]
      · simp [hpc]
      · simp [ClientPc.destructs]
  | destroyShared hpc => exact h.frame rfl List.prefix_rfl id rfl ⟨rfl, rfl⟩
  | destroyLast hpc | waitClear hpc =>
      refine h.move hothers List.prefix_rfl ?_ (fun hmem => .inr (.inr ⟨hmem, ?_, rfl⟩))
        fun _ => .inr (.inl ?_)
      · simp [ClientPc.awaits]
      · simp [hpc]
      · simp [ClientPc.destructs]
  | @releaseShared s role hpc | @releaseLast s role hpc | @join s role hpc =>
      refine h.move hothers List.prefix_rfl ?_ (fun hmem => .inr (.inr ⟨hmem, ?_, rfl⟩))
        fun hd => ?_
      · cases role <;> simp [State.afterRelease, ClientPc.awaits]
      · simp [hpc]
      · cases role with
        | destructor => exact .inr (.inl (by simp [State.afterRelease, ClientPc.destructs]))
        | addSink | call => exact .inr (.inr ⟨hd, by rw [hpc]; rfl, rfl⟩)
  | _ hpc =>
      refine h.move hothers List.prefix_rfl ?_ (fun hmem => .inr (.inr ⟨hmem, ?_, rfl⟩))
        fun hd => .inr (.inr ⟨hd, ?_, rfl⟩)
      · simp [hpc, ClientPc.awaits]
      · simp [hpc]
      · simp [hpc, ClientPc.destructs]

theorem step (h : Underway σ) {a : Action} (hs : Step σ a σ') : Underway σ' := by
  have hsent := hs.sent_isPrefix
  rcases hs.data with ⟨c, fresh, hs⟩ | hs | ⟨s, hs⟩ | hs
  · exact h.clientStep hs
  · cases hs with
    | exit hpc hexit => exact h.frame rfl hsent (Active.sent_exit hexit ▸ id) rfl ⟨rfl, rfl⟩
    | pop hpc hpop => exact h.frame rfl hsent (Active.sent_pop hpop ▸ id) rfl ⟨rfl, rfl⟩
    | bgSaveEnd | addSink | clearEnd | done =>
        exact h.frame rfl hsent (σ._bg.sent_ret ▸ id) rfl ⟨rfl, rfl⟩
    | _ => exact h.frame rfl hsent id rfl ⟨rfl, rfl⟩
  · cases hs with
    | turn | value => exact h.frame rfl hsent id rfl ⟨rfl, rfl⟩
  · cases hs with
    | keep => exact h.frame rfl hsent id rfl ⟨rfl, rfl⟩
    | send => exact h.frame rfl hsent (by simp) rfl ⟨rfl, rfl⟩

end Underway

theorem underway {Ok : State T R → Action → Prop} {σ : State T R}
    (h : (logWorker T R).ReachableBy Ok σ) : Underway σ := by
  refine h.invariant ?_ fun σ a σ' _ _ hσ hs => hσ.step (step_cases hs).2
  rintro _ ⟨programs, active, rfl⟩
  exact ⟨by simp [init, ClientPc.awaits], by simp [init], by simp [init]⟩

/-! ## Where no thread can go on -/

/-- The client is through with its program, or its next operation is not to be made: a message
to a worker that is gone, a call without a handle, a second destructor, or a fatal message. -/
def State.refused (σ : State T R) (c : ClientId) : Bool :=
  match (σ.clients c).program with
  | [] | .fatal _ :: _ => true
  | .save _ :: _ => !σ.bgPtr
  | .addSink _ _ :: _ => false
  | .call s _ :: _ => !(σ.sinks s).handle
  | .destroy :: _ => σ.destroying

/-- Nothing is left undone. -/
structure AtRest (σ : State T R) : Prop where
  clients : ∀ c, (σ.clients c).pc = .idle ∧ σ.refused c = true
  /-- Every message that has been saved for a sink has been logged. -/
  logged : ∀ s, (σ.sinks s).logged = σ.enqueuedFor s
  /-- Every call through a handle has its result. -/
  futures : ∀ id, id.n < (σ.clients id.client).calls → (σ.futures id).ready = true
  /-- If somebody destroys the worker, it is gone, and the sinks with it. -/
  destroyed : σ.destroying = true → σ.destroyed = true ∧ σ._bg.finished = true ∧
    ∀ s, (σ.sinks s).created = true →
      (σ.sinks s)._bg.finished = true ∧ (σ.sinks s)._real_sink = none

section Stuck
variable {σ : State T R}

/-- The thread of a sink has worked off its queue. -/
theorem executed_of_sinkStep (ho : Owned σ) {s : SinkId} (hs : σ.sinkStep s = none) :
    (σ.sinks s)._bg.executed = (σ.sinks s)._bg.sent := by
  have hlife := ho.life s
  by_cases hcreated : (σ.sinks s).created = true
  · by_cases hfinished : (σ.sinks s)._bg.finished = true
    · exact ho.executed_of_done (hlife.sound.done_of_finished hfinished)
    · by_contra hne
      have hturn := hlife.isSome_turn hcreated (by simpa using hfinished) fun hfunc _ hmq =>
        hne (by simp [Active.sent, hfunc, hmq])
      have hnone : (σ.sinks s).turn = none := by simpa [State.sinkStep, hcreated] using hs
      simp [hnone] at hturn
  · rw [ho.held.unmade s (by simpa using hcreated)]
    rfl

/-- Whoever is in `~Sink` finds its thread at the end. -/
theorem finished_of_sinkStep (ho : Owned σ) {s : SinkId} (hs : σ.sinkStep s = none)
    (hjoining : Joining σ.pc σ.clients s) : (σ.sinks s)._bg.finished = true := by
  by_contra hrunning
  have hstep := isSome_sinkStep ho hjoining (by simpa using hrunning)
  simp [hs] at hstep

/-- The thread of the worker waits at an empty queue, or has ended. -/
theorem worker_of_workerStep (ho : Owned σ) (hs : σ.workerStep = none)
    (hjoined : ∀ s, σ.pc.joins = some s → (σ.sinks s)._bg.finished = true) :
    σ.pc = .run ∧ (σ._bg.finished = true ∨
      σ._bg.done_ = false ∧ σ._bg.executed = σ._bg.sent) := by
  cases hpc : σ.pc with
  | run =>
      have hfunc : σ._bg.func = none := by rw [ho.worker.func, hpc]; rfl
      refine ⟨rfl, ?_⟩
      cases hdone : σ._bg.done_ with
      | true =>
          left
          simpa [State.workerStep, hpc, hdone, Active.exit, hfunc] using hs
      | false =>
          refine .inr ⟨rfl, ?_⟩
          have hmq : σ._bg.mq_ = [] := by
            by_contra hne
            have hpop := Active.isSome_pop hfunc hdone hne
            have hnone : σ._bg.pop = none := by simpa [State.workerStep, hpc, hdone] using hs
            simp [hnone] at hpop
          simp [Active.sent, hfunc, hmq]
  | bgSave msg i | bgFatal msg i =>
      simp only [State.workerStep, hpc] at hs
      split at hs <;> cases hs
  | clear fatal =>
      simp only [State.workerStep, hpc] at hs
      split at hs
      · split at hs <;> cases hs
      · cases fatal <;> cases hs
  | join s fatal =>
      have hfinished := hjoined s (by rw [hpc]; rfl)
      simp [State.workerStep, hpc, hfinished] at hs
  | addSink | shutDownLogging | exitWithDefaultSignalHandler | done =>
      simp [State.workerStep, hpc] at hs

variable {Ok : State T R → Action → Prop}

/-- Once the thread of the worker has ended, it has been joined, or is joined next. -/
theorem deleted_of_finished (h : (logWorker T R).ReachableBy Ok σ)
    (hfinished : σ._bg.finished = true)
    (hclients : ∀ c, (σ.clients c).pc = .joinBg → σ.clientStep c 0 = none) :
    σ.bgDeleted = true := by
  have hsound := (owned h).worker.sound
  have hdone := hsound.done_iff.mp (hsound.done_of_finished hfinished)
  rcases (underway h).closed (σ._bg.executed_isPrefix.subset hdone) with hdel | ⟨c, hpc⟩
  · exact hdel
  · have hnone := hclients c hpc
    simp [State.clientStep, hpc, hfinished] at hnone

/-- A client that can go no further is between two operations. -/
theorem idle_of_clientStep (h : (logWorker T R).ReachableBy Ok σ)
    (hsinks : ∀ s, σ.sinkStep s = none)
    (hworker : σ._bg.finished = true ∨ σ._bg.done_ = false ∧ σ._bg.executed = σ._bg.sent)
    (hclients : ∀ c, (σ.clients c).pc ≠ .idle → σ.clientStep c 0 = none) (c : ClientId) :
    (σ.clients c).pc = .idle := by
  by_contra hidle
  have hnone := hclients c hidle
  have hdeleted (hfinished : σ._bg.finished = true) : σ.bgDeleted = true :=
    deleted_of_finished h hfinished fun c hpc => hclients c (by simp [hpc])
  have hsent {task : Callback WorkerTask} (hawaits : (σ.clients c).pc.awaits = some task) :
      σ.bgDeleted = true ∨ σ._bg.done_ = false ∧ task ∈ σ._bg.executed := by
    refine hworker.imp hdeleted fun ⟨hdone, hexecuted⟩ => ⟨hdone, ?_⟩
    rw [hexecuted]
    exact (underway h).sent c task hawaits
  cases hpc : (σ.clients c).pc with
  | idle => exact hidle hpc
  | waitAdd s =>
      rcases hsent (by rw [hpc]; rfl) with hdel | ⟨-, hmem⟩
      · simp [State.clientStep, hpc, hdel] at hnone
      · simp [State.clientStep, hpc, hmem] at hnone
  | waitClear =>
      rcases hsent (by rw [hpc]; rfl) with hdel | ⟨-, hmem⟩
      · have := (beforeJoin h).running c (by rw [hpc]; rfl)
        simp [hdel] at this
      · simp [State.clientStep, hpc, hmem] at hnone
  | joinBg =>
      rcases hsent (by rw [hpc]; rfl) with hdel | ⟨hdone, hmem⟩
      · have := (beforeJoin h).running c (by rw [hpc]; rfl)
        simp [hdel] at this
      · exact (owned h).worker.sound.not_mem hdone hmem
  | join s role =>
      have hfinished := finished_of_sinkStep (owned h) (hsinks s) (.inr ⟨c, by rw [hpc]; rfl⟩)
      simp [State.clientStep, hpc, hfinished] at hnone
  | destroySinks =>
      simp only [State.clientStep, hpc] at hnone
      split at hnone
      · split at hnone <;> cases hnone
      · cases hnone
  | save | addSink | sendAdd | async | release | sendClear | resetBg =>
      simp [State.clientStep, hpc] at hnone

/-- And its next operation is not to be made. -/
theorem refused_of_clientStep {c : ClientId} {fresh : SinkId} (hpc : (σ.clients c).pc = .idle)
    (hfresh : (σ.sinks fresh).created = false)
    (hnone : calm σ (.client c fresh) = true → σ.clientStep c fresh = none) :
    σ.refused c = true := by
  simp only [calm, State.clientStep, hpc] at hnone
  unfold State.refused
  split
  · rfl
  · rfl
  · next hprogram => simpa [hprogram, State.start] using hnone
  · next hprogram => simp [hprogram, State.start, hfresh] at hnone
  · next s func rest hprogram =>
      simp only [hprogram, State.start, forall_const] at hnone
      by_contra hhandle
      simp only [Bool.not_eq_true, Bool.not_eq_false'] at hhandle
      simp only [hhandle, Bool.not_true, Bool.false_eq_true, if_false] at hnone
      split at hnone <;> cases hnone
  · next hprogram => simpa [hprogram, State.start] using hnone

/-- What the worker has been given is forwarded, when it waits at an empty queue. -/
theorem forwarded_of_executed (h : (logWorker T R).ReachableBy Ok σ) (hpc : σ.pc = .run)
    (hdone : σ._bg.done_ = false) (hexecuted : σ._bg.executed = σ._bg.sent) (s : SinkId) :
    (σ.sinks s).forwarded = σ.enqueuedFor s := by
  have huntil : Active.untilDone σ._bg.executed = workOf σ._bg.executed := by
    have happend := Active.untilDone_append ((owned h).worker.sound.not_mem hdone) []
    simpa [Active.untilDone] using happend
  rw [(delivered h).forwarded s, hpc,
    delivered_eq (once_events h s σ._bg.executed_isPrefix), State.enqueuedFor, ← hexecuted, huntil]
  simp [WorkerPc.forwarded, events]

end Stuck

theorem atRest_of_stuck {Ok : State T R → Action → Prop} {programs : ClientId → List (Op T R)}
    {active : Bool} {σ : State T R}
    (hl : (logWorker T R).LeadsBy Ok (init programs active) σ) (hcalm : Calm σ) {fresh : SinkId}
    (hfresh : (σ.sinks fresh).created = false)
    (hstuck : ∀ a, calm σ a = true → step σ a = none) : AtRest σ := by
  have h := reachableBy_of_leads hl
  have ho := owned h
  have hsinks (s : SinkId) : σ.sinkStep s = none := by
    rw [← hstuck (.sink s) rfl, hcalm.step_eq rfl]
  have hclients (c : ClientId) (fresh : SinkId) (ha : calm σ (.client c fresh) = true) :
      σ.clientStep c fresh = none := by
    rw [← hstuck _ ha, hcalm.step_eq ha]
  have hworker : σ.workerStep = none := by
    rw [← hstuck .worker rfl, hcalm.step_eq rfl]
  obtain ⟨hrun, hend⟩ := worker_of_workerStep ho hworker
    fun s hj => finished_of_sinkStep ho (hsinks s) (.inl hj)
  have hidle (c : ClientId) : (σ.clients c).pc = .idle := by
    refine idle_of_clientStep h hsinks hend (fun c hpc => hclients c 0 ?_) c
    unfold calm
    split <;> simp_all
  constructor
  · exact fun c => ⟨hidle c, refused_of_clientStep (hidle c) hfresh (hclients c fresh)⟩
  · intro s
    rw [Sink.flushed_of_executed (executed_of_sinkStep ho (hsinks s))]
    rcases hend with hfinished | ⟨hdone, hexecuted⟩
    · exact forwarded_of_finished h hfinished s
    · exact forwarded_of_executed h hrun hdone hexecuted s
  · intro id hid
    obtain ⟨s, func, -, hout, -⟩ := (calls hl).outcome ho hid
    cases hout with
    | refused _ hfuture | run _ _ _ hfuture => simp [hfuture, Future.ready]
    | locked hpc => simp [hidle] at hpc
    | waiting hsent _ hran =>
        refine absurd (Calls.mem_called.mpr ⟨func, hsent⟩) ?_
        rwa [Sink.called, ← executed_of_sinkStep ho (hsinks s)]
  · intro hdestroying
    have hoff (c : ClientId) : (σ.clients c).pc.destructs = false := by rw [hidle]; rfl
    have hdestroyed : σ.destroyed = true := by
      refine ((underway h).begun hdestroying).resolve_right ?_
      rintro ⟨c, hc⟩
      simp [hoff] at hc
    have hunused (c : ClientId) : (σ.clients c).pc.usesSink = false := by rw [hidle]; rfl
    refine ⟨hdestroyed, ho.registered.deleted ((shutdown h).returned hdestroyed).1,
      fun s hcreated => ?_⟩
    obtain ⟨hstrong, hjoining⟩ := unreferred_of_destroyed h hdestroyed hunused s
    exact ⟨((ho.life s).closed hcreated hstrong).2.resolve_right hjoining,
      real_sink_eq_none h hstrong hjoining⟩

/-- Without fatal events, the clients and the threads of the worker and its sinks make so many
steps and no more, and when none of them can go on nothing is left undone. -/
theorem comes_to_rest {crew : Finset ClientId} {programs : ClientId → List (Op T R)}
    (hcrew : ∀ c ∉ crew, programs c = []) {active : Bool} {as : List Action} {σ : State T R}
    (hrun : (logWorker T R).runBy calm (init programs active) as = some σ) :
    as.length ≤ bound crew programs ∧
      ((∀ a, calm σ a = true → step σ a = none) → AtRest σ) := by
  have hstep (k : ℕ) (σ : State T R) (a : Action) (σ' : State T R)
      (h : Within (∑ c ∈ crew, sinksOf (programs c)) crew k σ) (ha : calm σ a = true)
      (hs : step σ a = some σ') := h.step ha (step_cases hs).2
  refine ⟨System.length_le_of_bound hstep (Within.init hcrew active) hrun, fun hstuck => ?_⟩
  have hl := System.leadsBy_of_runBy hrun
  obtain ⟨k, hbounded⟩ : ∃ k, Within (∑ c ∈ crew, sinksOf (programs c)) crew k σ := by
    clear hrun hstuck
    induction hl with
    | refl => exact ⟨_, Within.init hcrew active⟩
    | step _ ha hs ih =>
        obtain ⟨k, hk⟩ := ih
        obtain ⟨k', -, hk'⟩ := hk.step ha (step_cases hs).2
        exact ⟨k', hk'⟩
  obtain ⟨made, hmade, -⟩ := hbounded.left
  obtain ⟨fresh, hfresh⟩ := Infinite.exists_notMem_finset made
  exact atRest_of_stuck hl hbounded.calm (by simpa [hmade] using hfresh) hstuck

/-- A sink is added, a message is saved, and the worker is destroyed: no step less would do, and
with none left the run is at rest. -/
theorem comes_to_rest_crew : ∃ σ, (logWorker Unit Unit).runBy calm (init crew true) deliverRun =
      some σ ∧ σ.destroyed = true ∧ deliverRun.length = bound {0, 1, 2} crew ∧
    deliverRun.length ≤ bound {0, 1, 2} crew ∧ AtRest σ := by
  have hrun : ((logWorker Unit Unit).runBy calm (init crew true) deliverRun).any
      (fun σ => σ.destroyed) = true := by decide +kernel
  have hcrew : ∀ c ∉ ({0, 1, 2} : Finset ClientId), crew c = [] := by
    intro c hc
    match c, hc with
    | 0, hc | 1, hc | 2, hc => simp at hc
    | _ + 3, _ => rfl
  have hlength : deliverRun.length = bound {0, 1, 2} crew := by decide
  obtain ⟨σ, hσ, hend⟩ := (Option.any_eq_true _ _).mp hrun
  obtain ⟨hle, hrest⟩ := comes_to_rest hcrew hσ
  refine ⟨σ, hσ, hend, hlength, hle, hrest ?_⟩
  -- One step more would go beyond the bound.
  intro a hcalm
  by_contra hsome
  obtain ⟨σ', hs⟩ := Option.ne_none_iff_exists'.mp hsome
  have hbound := (comes_to_rest hcrew (System.runBy_concat hσ hcalm hs)).1
  rw [List.length_append, hlength] at hbound
  simp at hbound

end G3log
