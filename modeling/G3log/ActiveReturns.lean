import G3log.ActiveQueue

/-!
# The destructor of an active object returns

`~Active` sends a callback through the same queue as everybody and joins the thread that is
to execute it, which may be asleep, or about to fall asleep, or in a callback. Once nobody
sends any more, the threads make so many steps and no more, and they do not stop before the
destructor has come to its end.

## Main definitions

* `ActiveQueue.toDo` -- how many steps there are, at most.
* `ActiveQueue.destructor_returns` -- the destructor is never stuck.
-/

namespace G3log

open Transition Monitors

/-- A step of what is under way: neither a new call of `send`, nor a thread that wakes up by
itself, nor the end of the object. -/
def ActiveQueueAction.proper {ι α : Type} : ActiveQueueAction ι α → Bool
  | .queue a => a.proper
  | .run | .join => true
  | _ => false

namespace ActiveQueue
variable {ι α : Type} [DecidableEq ι] {movedFrom : Callback α → Callback α}
  {s s' : ActiveQueue ι α}

/-- A callback that is pushed has the loop go round once more. -/
def charge : SharedQueue.Op (Callback α) → ℕ
  | .push _ => 9
  | _ => 0

/-- How far the loop is from waiting for the next callback. -/
def toWait (s : ActiveQueue ι α) : ℕ :=
  if s.func.isSome then 9 else match s.run with
    | .loop => 8
    | _ => 0

def toJoin (s : ActiveQueue ι α) : ℕ :=
  match s.destructor with
  | .send | .join => 1
  | _ => 0

/-- How many steps there are to make, at most, by the threads given. -/
def toDo (movedFrom : Callback α → Callback α) (threads : Finset (ActiveThread ι))
    (s : ActiveQueue ι α) : ℕ :=
  work (shared_queue movedFrom) 3 charge threads s.mq_ + 9 * s.mq_.settled.length + s.toWait +
    s.toJoin

/-! ## What a step leaves to do -/

theorem sum_charge (calls : List (CallbackQueueEntry α)) :
    (calls.map (charge ·.op)).sum = 9 * (SharedQueue.pushed calls).length := by
  induction calls with
  | nil => rfl
  | cons e calls ih =>
      rw [List.map_cons, List.sum_cons, ih, SharedQueue.pushed_cons, List.length_append]
      cases hop : e.op with
      | push c =>
          simp [charge, SharedQueue.pushed, hop]
          omega
      | _ => simp [charge, SharedQueue.pushed, hop]

omit [DecidableEq ι] in
/-- What has been charged for has been popped, or is in the queue. -/
theorem charged_eq {q : CallbackQueue ι α}
    (h : Sound (shared_queue movedFrom) [] q) :
    charged charge q =
      9 * (SharedQueue.popped q.order).length + 9 * q.settled.length := by
  have hlegal := h.legal
  rw [SharedQueue.spec_shared_queue] at hlegal
  have hpushed := SharedQueue.pushed_eq_of_legal hlegal
  rw [List.nil_append] at hpushed
  rw [charged, sum_charge, hpushed, List.length_append]
  omega

omit [DecidableEq ι] in
theorem toWait_eq (hfunc : s'.func = s.func) (hrun : s'.run = s.run ∨ s.func.isSome = true) :
    s'.toWait = s.toWait := by
  rcases hrun with hrun | hsome
  · rw [toWait, toWait, hfunc, hrun]
  · rw [toWait, toWait, hfunc, if_pos hsome, if_pos hsome]

/-- The loop has farther to go only when it has taken a callback. -/
theorem Wf.toWait_le (h : Wf movedFrom s)
    {a : CallbackQueueAction ι α} {q : CallbackQueue ι α}
    (hobserved : Observed (shared_queue movedFrom) s.mq_ a q) :
    ({ s with mq_ := q }.resume (s.mq_.returns a)).toWait +
        9 * (SharedQueue.popped s.mq_.order).length ≤
      s.toWait + 9 * (SharedQueue.popped q.order).length := by
  cases hobserved with
  | silent hreturns hview' hsettled horder =>
      have hfunc : { s with mq_ := q }.func = s.func := by simp [func, hview']
      rw [hreturns, horder]
      exact Nat.add_le_add_right (toWait_eq hfunc (.inl rfl)).le _
  | @takesPlace t e hreturns hview hview' hspec horder =>
      rw [hreturns, horder, SharedQueue.popped_append, List.length_append]
      have hsame : { s with mq_ := q }.func = s.func →
          { s with mq_ := q }.toWait = s.toWait := fun hfunc => toWait_eq hfunc (.inl rfl)
      cases t with
      | sender i =>
          have := hsame (by simp [func, hview'])
          simp only [resume]
          omega
      | destructor =>
          have := hsame (by simp [func, hview'])
          simp only [resume]
          omega
      | run =>
          have hfits := h.run
          rw [hview] at hfits
          rcases hfits.pending with ⟨hrun, -, hop⟩ | ⟨f, task, hrun, -⟩
          · rw [SharedQueue.spec_shared_queue, hop] at hspec
            obtain ⟨c, -, hresult⟩ := SharedQueue.fifo_wait_and_pop hspec
            simp only [resume, toWait, func, hrun, hview', Function.update_self, hresult,
              SharedQueue.popped, List.filterMap_cons, List.filterMap_nil, List.length_singleton,
              Option.isSome_some, if_true]
            omega
          · have := hsame (by simp [func, hrun])
            simp only [resume]
            omega
  | @ret t op r hreturns hview hview' hsettled horder =>
      rw [hreturns, horder]
      refine Nat.add_le_add_right (le_of_eq ?_) _
      cases t with
      | sender i => exact toWait_eq (by simp [resume, func, hview']) (.inl rfl)
      | destructor => exact toWait_eq (by simp [resume, func, hview']) (.inl rfl)
      | run =>
          have hfits := h.run
          rw [hview] at hfits
          rcases hfits.settled with ⟨c, hrun, -, rfl⟩ | ⟨f, hrun⟩
          · refine toWait_eq ?_ (.inr ?_)
            · simp [resume, func, hrun, hview]
            · simp [func, hrun, hview]
          · exact toWait_eq (by simp [resume, func, hrun]) (.inr (by simp [func, hrun]))

/-- The destructor waits for its push, and then for the thread. -/
theorem Wf.toJoin_le (h : Wf movedFrom s)
    {a : CallbackQueueAction ι α} {q : CallbackQueue ι α}
    (hobserved : Observed (shared_queue movedFrom) s.mq_ a q) :
    ({ s with mq_ := q }.resume (s.mq_.returns a)).toJoin = s.toJoin := by
  cases hobserved with
  | silent hreturns => rw [hreturns]; rfl
  | takesPlace hreturns => rw [hreturns]; rfl
  | @ret t op r hreturns hview =>
      rw [hreturns]
      cases t with
      | sender i => rfl
      | destructor =>
          have hsend : s.destructor = .send := by
            by_contra hne
            simp [h.notInSend hne] at hview
          simp [resume, toJoin, hsend]
      | run =>
          simp only [resume]
          split <;> rfl

/-- A step in the queue leaves less to do. -/
theorem Wf.toDo_lt_of_queue (h : Wf movedFrom s) {threads : Finset (ActiveThread ι)}
    {a : CallbackQueueAction ι α} {q : CallbackQueue ι α}
    (hthreads : ∀ t, s.mq_.pc t ≠ none → t ∈ threads) (ha : a.proper = true)
    (hq : Monitors.step (shared_queue movedFrom) s.mq_ a = some q) :
    toDo movedFrom threads ({ s with mq_ := q }.resume (s.mq_.returns a)) <
      toDo movedFrom threads s := by
  have hcall : ∀ t op, a ≠ .call t op := by
    rintro t op rfl
    cases ha
  have hobserved := h.sound.observed (move_of_step hq) hcall
  have hbounded : WorkBound (shared_queue movedFrom) SharedQueue.takes 3 charge :=
    SharedQueue.workBound_shared_queue movedFrom rfl
  have hwork := work_lt hbounded h.sound.exclusive h.awake hthreads ha hq
  rw [charged_eq (h.queue (move_of_step hq)).1, charged_eq h.sound] at hwork
  have hwait := h.toWait_le hobserved
  have hjoin := h.toJoin_le hobserved
  simp only [toDo, mq_resume]
  omega

/-- The threads given are all that are in the queue, and the one of the object is among them. -/
structure Among (threads : Finset (ActiveThread ι)) (s : ActiveQueue ι α) : Prop where
  run : .run ∈ threads
  mem : ∀ t, s.mq_.pc t ≠ none → t ∈ threads

/-- A step of the loop leaves less to do. -/
theorem Wf.toDo_lt_of_run (h : Wf movedFrom s) {threads : Finset (ActiveThread ι)}
    (hamong : Among threads s) (hstep : ActiveQueue.step movedFrom s .run = some s') :
    toDo movedFrom threads s' < toDo movedFrom threads s ∧ Among threads s' := by
  simp only [ActiveQueue.step] at hstep
  split at hstep
  · next hrun =>
      split at hstep
      · obtain rfl := Option.some.inj hstep
        refine ⟨?_, hamong.run, hamong.mem⟩
        simp [toDo, toWait, func, toJoin, hrun]
      · obtain ⟨s₁, hcall, rfl⟩ := Option.map_eq_some_iff.mp hstep
        obtain ⟨q, hq, rfl⟩ := Option.map_eq_some_iff.mp hcall
        have hmove := move_of_step hq
        have hcalled := called_of_move hmove
        have hwork : work (shared_queue movedFrom) 3 charge threads q + charged charge q =
            work (shared_queue movedFrom) 3 charge threads s.mq_ + charged charge s.mq_ + 7 :=
          work_call h.sound.exclusive hamong.run hmove
        have hcharged : charged charge q = charged charge s.mq_ := by
          rw [charged, charged, hcalled.order]
        constructor
        · simp only [toDo, toWait, func, toJoin, hrun, hcalled.view_eq, hcalled.settled,
            Function.update_self, Option.isSome_none, Bool.false_eq_true, if_false]
          omega
        · refine ⟨hamong.run, fun t ht => ?_⟩
          by_cases ht' : t = .run
          · rw [ht']
            exact hamong.run
          · apply hamong.mem
            intro hnone
            apply ht
            cases hmove
            simp [Function.update_of_ne ht', hnone]
  · next c hrun =>
      obtain rfl := Option.some.inj hstep
      refine ⟨?_, hamong.run, hamong.mem⟩
      simp [toDo, toWait, func, toJoin, funcReturns, hrun]
  · cases hstep

theorem Wf.toDo_lt (h : Wf movedFrom s) {threads : Finset (ActiveThread ι)}
    (hamong : Among threads s) {a : ActiveQueueAction ι α} (ha : a.proper = true)
    (hstep : ActiveQueue.step movedFrom s a = some s') :
    toDo movedFrom threads s' < toDo movedFrom threads s ∧ Among threads s' := by
  have hqueue : ∀ (b : CallbackQueueAction ι α) (q : CallbackQueue ι α), b.proper = true →
      Monitors.step (shared_queue movedFrom) s.mq_ b = some q →
      toDo movedFrom threads ({ s with mq_ := q }.resume (s.mq_.returns b)) <
        toDo movedFrom threads s ∧
        Among threads ({ s with mq_ := q }.resume (s.mq_.returns b)) := by
    intro b q hb hq
    refine ⟨h.toDo_lt_of_queue hamong.mem hb hq, hamong.run, fun t ht => ?_⟩
    rw [mq_resume] at ht
    exact hamong.mem t fun hnone => ht (pc_eq_none_of_move hnone hb (move_of_step hq))
  cases a with
  | send i task => cases ha
  | sendFromCallback task => cases ha
  | queue b =>
      cases b with
      | call t op => cases ha
      | spurious t => cases ha
      | run t =>
          obtain ⟨q, hq, rfl⟩ := Option.map_eq_some_iff.mp hstep
          exact hqueue _ q rfl hq
      | notify t u =>
          obtain ⟨q, hq, rfl⟩ := Option.map_eq_some_iff.mp hstep
          exact hqueue _ q rfl hq
  | run => exact h.toDo_lt_of_run hamong hstep
  | destroy => cases ha
  | join =>
      simp only [ActiveQueue.step] at hstep
      split at hstep
      · next hjoin =>
          obtain rfl := Option.some.inj hstep
          refine ⟨?_, hamong.run, hamong.mem⟩
          simp only [toDo, toJoin, hjoin.1]
          exact Nat.lt_succ_self _
      · cases hstep
  | destroyMembers => cases ha

/-! ## When no step is left -/

/-- Nothing of what is under way can go on. -/
def Stuck (movedFrom : Callback α → Callback α) (s : ActiveQueue ι α) : Prop :=
  ∀ a : ActiveQueueAction ι α, a.proper = true → ActiveQueue.step movedFrom s a = none

theorem Stuck.quiet (h : Stuck movedFrom s) : Quiet (shared_queue movedFrom) s.mq_ := by
  intro t
  constructor
  · simpa [ActiveQueue.step] using h (.queue (.run t)) rfl
  · intro u
    simpa [ActiveQueue.step] using h (.queue (.notify t u)) rfl

omit [DecidableEq ι] in
/-- The thread of the object finds a callback, once the destructor has sent its own. -/
theorem settled_ne_nil (hinv : Draining.Inv s.seen) (hcalled : s.seen.destructor ≠ .notCalled)
    (hdone : s.done_ = false) (hrun : s.run = .wait_and_pop)
    (hview : s.mq_.view .run = some (.wait_and_pop, none)) : s.mq_.settled ≠ [] := by
  intro hsettled
  have hexecuted : s.seen.pushed = s.seen.active.executed := by
    rw [hinv.pushed, Active.sent]
    simp [seen, func, hrun, hview, hsettled]
  have hmem := hinv.drained.destructor.mpr hcalled
  rw [hexecuted, ← hinv.sound.done_iff] at hmem
  rw [show s.done_ = true from hmem] at hdone
  cases hdone

/-- When nothing can go on, no thread is in the queue but the one of the object, which is asleep
beside an empty one. -/
theorem Wf.view_of_stuck (h : Wf movedFrom s) (hstuck : Stuck movedFrom s) {t : ActiveThread ι}
    {op : SharedQueue.Op (Callback α)} {r : Option (SharedQueue.Result (Callback α))}
    (hview : s.mq_.view t = some (op, r)) :
    op = .wait_and_pop ∧ r = none ∧ s.mq_.settled = [] := by
  obtain ⟨hasleep, hempty⟩ := h.awake.of_quiet h.sound hstuck.quiet
  obtain ⟨c, hpc, hc⟩ := Option.map_eq_some_iff.mp hview
  obtain ⟨rfl, rfl⟩ := Prod.mk.inj hc
  obtain ⟨hplace, htakes⟩ := hasleep t c hpc
  have hmem : t ∈ s.mq_.waiters :=
    (h.sound.exclusive.fits t).waiters_iff.mpr ⟨c, hpc, by simp [hplace, Place.asleep]⟩
  refine ⟨?_, by simp [hplace, Place.result], ?_⟩
  · cases hop : c.op with
    | wait_and_pop => rfl
    | _ => simp [hop, SharedQueue.takes] at htakes
  · rw [← h.sound.exclusive.free (hstuck.quiet.owner h.sound.exclusive)]
    exact List.length_eq_zero_iff.mp (hempty (List.ne_nil_of_mem hmem))

theorem Wf.run_of_stuck (h : Wf movedFrom s) (hinv : Draining.Inv s.seen)
    (hcalled : s.seen.destructor ≠ .notCalled) (hstuck : Stuck movedFrom s) :
    s.run = .finished := by
  have hstep := hstuck .run rfl
  have hfits := h.run
  simp only [ActiveQueue.step] at hstep
  cases hrun : s.run with
  | loop =>
      have hnone : s.mq_.view .run = none := by simpa [hrun, RunFits] using hfits
      have hpc : s.mq_.pc .run = none := by simpa [Monitors.State.view] using hnone
      simp only [hrun] at hstep
      split at hstep
      · cases hstep
      · simp [call, Monitors.step, hpc] at hstep
  | wait_and_pop =>
      rw [hrun] at hfits
      obtain ⟨hdone, hview | ⟨c, hview⟩⟩ := hfits
      · exact absurd (h.view_of_stuck hstuck hview).2.2
          (settled_ne_nil hinv hcalled hdone hrun hview)
      · cases (h.view_of_stuck hstuck hview).2.1
  | func c => simp [hrun] at hstep
  | send c =>
      rw [hrun] at hfits
      cases c with
      | done => exact hfits.elim
      | work f =>
          obtain ⟨task, r, hview⟩ := hfits
          cases (h.view_of_stuck hstuck hview).1
  | finished => rfl

/-- The end of the object: every thread has left it, and what was sent before the callback of the
destructor has been executed. -/
structure Ended (s : ActiveQueue ι α) : Prop where
  destructor : s.destructor = .joined ∨ s.destructor = .destroyed
  run : s.run = .finished
  pc : ∀ t, (s.mq_.pc t).isNone = true
  executed : ∃ front back, SharedQueue.pushed s.mq_.order = front ++ .done :: back ∧
    s.executed = front ++ [.done]

/-- When nothing can go on after the destructor has been called, it has returned. -/
theorem Wf.ended_of_stuck (h : Wf movedFrom s) (hinv : Draining.Inv s.seen)
    (hcalled : s.destructor ≠ .notCalled) (hstuck : Stuck movedFrom s) : Ended s := by
  have hsend : s.destructor ≠ .send := by
    intro hsend
    obtain ⟨r, hview⟩ := h.inSend hsend
    cases (h.view_of_stuck hstuck hview).1
  have hseen : s.seen.destructor ≠ .notCalled := by
    change s.seenDestructor ≠ .notCalled
    unfold seenDestructor
    cases hd : s.destructor <;> simp_all
  have hrun := h.run_of_stuck hinv hseen hstuck
  refine ⟨?_, hrun, ?_, ?_⟩
  · have hjoin := hstuck .join rfl
    simp only [ActiveQueue.step, hrun, RunPc.isFinished, and_true] at hjoin
    cases hd : s.destructor with
    | notCalled => exact absurd hd hcalled
    | send => exact absurd hd hsend
    | join => simp [hd] at hjoin
    | joined => exact .inl rfl
    | destroyed => exact .inr rfl
  · intro t
    suffices hview : s.mq_.view t = none by simpa [Monitors.State.view] using hview
    cases hview : s.mq_.view t with
    | none => rfl
    | some v =>
        obtain ⟨op, r⟩ := v
        obtain ⟨rfl, -, -⟩ := h.view_of_stuck hstuck hview
        cases t with
        | sender i =>
            obtain ⟨task, htask⟩ := h.senders i _ _ hview
            cases htask
        | run =>
            have hfits := h.run
            rw [hrun, hview] at hfits
            cases hfits
        | destructor =>
            rw [h.notInSend hsend] at hview
            cases hview
  · have hdrained := hinv.drained
    obtain ⟨front, back, hpushed⟩ := List.append_of_mem (hdrained.destructor.mpr hseen)
    refine ⟨front, back, hpushed, hdrained.before front back hpushed (hdrained.returns ?_)⟩
    simp [seen, hrun, RunPc.isFinished]

/-! ## The destructor returns -/

omit [DecidableEq ι] in
theorem alive_of_proper {a : ActiveQueueAction ι α} (ha : a.proper = true) : Alive s a := by
  rintro rfl
  cases ha

theorem length_le_toDo (h : (activeQueue ι movedFrom).ReachableBy Alive s)
    {threads : Finset (ActiveThread ι)} (hamong : Among threads s)
    {as : List (ActiveQueueAction ι α)}
    (hrun : (activeQueue ι movedFrom).runBy (fun _ a => a.proper) s as = some s') :
    as.length ≤ toDo movedFrom threads s := by
  refine System.length_le_of_bound (S := activeQueue ι movedFrom)
    (B := fun k s => (activeQueue ι movedFrom).ReachableBy Alive s ∧ Among threads s ∧
      toDo movedFrom threads s ≤ k) ?_ ⟨h, hamong, le_rfl⟩ hrun
  rintro k s a s' ⟨h, hamong, hle⟩ ha hstep
  obtain ⟨hlt, hamong'⟩ := (wf_of_reachable h).toDo_lt hamong ha hstep
  exact ⟨_, lt_of_lt_of_le hlt hle, .step h (alive_of_proper ha) hstep, hamong', le_rfl⟩

omit [DecidableEq ι] in
theorem destructor_resume (hcalled : s.destructor ≠ .notCalled)
    (out : Option (ActiveThread ι × SharedQueue.Result (Callback α))) :
    (s.resume out).destructor ≠ .notCalled := by
  unfold resume
  split
  · split <;> exact hcalled
  · simp
  · exact hcalled
  · exact hcalled

/-- The destructor is called once. -/
theorem called_of_step {a : ActiveQueueAction ι α} (hcalled : s.destructor ≠ .notCalled)
    (ha : a.proper = true) (hstep : ActiveQueue.step movedFrom s a = some s') :
    s'.destructor ≠ .notCalled := by
  cases a with
  | send i task => cases ha
  | sendFromCallback task => cases ha
  | destroy => cases ha
  | destroyMembers => cases ha
  | queue b =>
      cases b with
      | call t op => cases ha
      | _ =>
          obtain ⟨q, -, rfl⟩ := Option.map_eq_some_iff.mp hstep
          exact destructor_resume (s := { s with mq_ := q }) hcalled _
  | run =>
      simp only [ActiveQueue.step] at hstep
      split at hstep
      · split at hstep
        · obtain rfl := Option.some.inj hstep
          exact hcalled
        · obtain ⟨s₁, hcall, rfl⟩ := Option.map_eq_some_iff.mp hstep
          obtain ⟨q, -, rfl⟩ := Option.map_eq_some_iff.mp hcall
          exact hcalled
      · obtain rfl := Option.some.inj hstep
        exact hcalled
      · cases hstep
  | join =>
      simp only [ActiveQueue.step] at hstep
      split at hstep
      · obtain rfl := Option.some.inj hstep
        simp
      · cases hstep

theorem called_of_leads (hcalled : s.destructor ≠ .notCalled)
    (h : (activeQueue ι movedFrom).LeadsBy (fun _ a => a.proper = true) s s') :
    s'.destructor ≠ .notCalled := by
  induction h with
  | refl => exact hcalled
  | step _ ha hstep ih => exact called_of_step ih ha hstep

/-- Once the destructor has been called and nobody sends any more, the threads make so many
steps and no more, and when they have made them the object has come to its end. -/
theorem destructor_returns (h : (activeQueue ι movedFrom).ReachableBy Alive s)
    (hcalled : s.destructor ≠ .notCalled) :
    ∃ bound, ∀ as s', (activeQueue ι movedFrom).runBy (fun _ a => a.proper) s as = some s' →
      as.length ≤ bound ∧ (Stuck movedFrom s' → Ended s') := by
  obtain ⟨threads, hthreads⟩ := (wf_of_reachable h).awake.covers
  have hamong : Among (insert .run threads) s :=
    ⟨Finset.mem_insert_self _ _, fun t ht => Finset.mem_insert_of_mem (hthreads.mem t ht)⟩
  refine ⟨_, fun as s' hrun => ⟨length_le_toDo h hamong hrun, ?_⟩⟩
  have hleads := System.leadsBy_of_runBy hrun
  have h' := h.leads (hleads.mono fun _ _ => alive_of_proper)
  have hcalled' := called_of_leads hcalled hleads
  exact (wf_of_reachable h').ended_of_stuck (Draining.inv (seen_reachable h')) hcalled'

/-- The thread sleeps, and two callbacks are on their way to it, one of them the destructor's. -/
theorem destructor_returns_sleeper :
    ∃ s : ActiveQueue (Fin 2) ℕ, (activeQueue (Fin 2) id).ReachableBy Alive s ∧
      s.mq_.waiters = [.run] ∧ s.destructor = .send ∧
      ∃ bound, ∀ as s', (activeQueue (Fin 2) id).runBy (fun _ a => a.proper) s as = some s' →
      as.length ≤ bound ∧ (Stuck id s' → Ended s') := by
  have hrun : ((activeQueue (Fin 2) id).runBy checksAlive createActive
      [.run, .queue (.run .run), .queue (.run .run), .send 0 5, .queue (.run (.sender 0)),
        .destroy]).any
      (fun s => decide (s.mq_.waiters = [.run]) && decide (s.destructor = .send)) = true := by
    decide +kernel
  obtain ⟨s, hs, hend⟩ := System.exists_reachableBy rfl hrun
  have halive := hs.mono fun _ _ => alive_of_checksAlive
  simp only [Bool.and_eq_true, decide_eq_true_eq] at hend
  exact ⟨s, halive, hend.1, hend.2, destructor_returns halive (by simp [hend.2])⟩

end ActiveQueue
end G3log
