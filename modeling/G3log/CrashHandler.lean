import G3log.LogLevels

/-!
# Fatal signal handlers

`crashhandler_unix.cpp` keeps two tables: `gSignals`, the signals to handle, and
`gSavedSigActions`, what each signal did before the library took it. The operating
system is a map from signal to disposition, and `sigaction` swaps one entry of it.

Installing the handlers a second time, with no restore in between, saves the
library's own handler as the disposition to go back to. `survives_iff_fresh` says that
this is the only way it gets there: over any sequence of calls the saved table stays
free of the handler exactly when no install finds it in place.

## Main definitions

* `Disposition`, `SignalState` -- the operating system's table and the library's two.
* `installSignalHandler`, `restoreSignalHandler`, `overrideSetupSignals` -- the calls.
* `SignalState.Survives` -- the original dispositions can be put back.
* `SignalState.Fresh` -- a call does not install over the library's own handler.
-/

namespace G3log

def SIGILL : Int := 4
def SIGABRT : Int := 6
def SIGFPE : Int := 8
def SIGSEGV : Int := 11
def SIGTERM : Int := 15

/-- The string representation of a fatal event's signal. -/
def exitReasonName (level : LEVELS) (fatal_id : Int) : String :=
  if fatal_id = SIGABRT then "SIGABRT"
  else if fatal_id = SIGFPE then "SIGFPE"
  else if fatal_id = SIGSEGV then "SIGSEGV"
  else if fatal_id = SIGILL then "SIGILL"
  else if fatal_id = SIGTERM then "SIGTERM"
  else "UNKNOWN SIGNAL(" ++ toString fatal_id ++ ") for " ++ level.text

/-- What a signal does: run the library's `signalHandler`, or some other action. -/
inductive Disposition
  | signalHandler
  | other (action : ℕ)
  deriving DecidableEq, Repr

/-- The signals to handle, by number, with their names. -/
abbrev SignalMap := Std.ExtTreeMap Int String

def kSignals : SignalMap :=
  .ofList [(SIGABRT, "SIGABRT"), (SIGFPE, "SIGFPE"), (SIGILL, "SIGILL"),
    (SIGSEGV, "SIGSEGV"), (SIGTERM, "SIGTERM")]

/-- The library's tables and the operating system's. -/
structure SignalState where
  gSignals : SignalMap
  gSavedSigActions : Std.ExtTreeMap Int Disposition
  /-- Set by the first `initializeLogging`. -/
  g_initialize_flag : Bool
  /-- The operating system's disposition of each signal. -/
  disposition : Int → Disposition

namespace SignalState

/-- A process before any call: the default signals, nothing saved or installed. -/
def initial (disposition : Int → Disposition) : SignalState where
  gSignals := kSignals
  gSavedSigActions := ∅
  g_initialize_flag := false
  disposition := disposition

section Calls
-- The signals `sigaction` accepts; it fails for every other number.
variable (catchable : Int → Bool)

/-- `sigaction`: the previous disposition and the new table, or an error. -/
def sigaction (sig : Int) (action : Disposition) (σ : SignalState) :
    Option (Disposition × SignalState) :=
  if catchable sig then
    some (σ.disposition sig,
      { σ with disposition := Function.update σ.disposition sig action })
  else none

/-- One turn of the loop of `installSignalHandler`; a failure is only printed. -/
def installOne (σ : SignalState) (sig : Int) : SignalState :=
  match sigaction catchable sig .signalHandler σ with
  | none => σ
  | some (old_action, σ') =>
      { σ' with gSavedSigActions := σ'.gSavedSigActions.insert sig old_action }

def installSignalHandler (σ : SignalState) : SignalState :=
  σ.gSignals.keys.foldl (installOne catchable) σ

def installCrashHandler (σ : SignalState) : SignalState := installSignalHandler catchable σ

/-- Put the saved disposition back and forget it, even if `sigaction` fails. -/
def restoreSignalHandler (σ : SignalState) (sig : Int) : SignalState :=
  match σ.gSavedSigActions[sig]? with
  | none => σ
  | some old_action =>
      let σ' := match sigaction catchable sig old_action σ with
        | none => σ
        | some (_, σ') => σ'
      { σ' with gSavedSigActions := σ'.gSavedSigActions.erase sig }

def overrideSetupSignals (overrideSignals : SignalMap) (σ : SignalState) : SignalState :=
  let σ' := σ.gSignals.keys.foldl (restoreSignalHandler catchable) σ
  installCrashHandler catchable { σ' with gSignals := overrideSignals }

def restoreSignalHandlerToDefault (σ : SignalState) : SignalState :=
  overrideSetupSignals catchable kSignals σ

/-- The part of `initializeLogging` that concerns signals, under its once-flag. -/
def initializeLogging (σ : SignalState) : SignalState :=
  if σ.g_initialize_flag then σ
  else { installCrashHandler catchable σ with g_initialize_flag := true }

/-- A call that reads or changes the signal tables. -/
inductive Op
  | initializeLogging
  | installCrashHandler
  | overrideSetupSignals (overrideSignals : SignalMap)
  | restoreSignalHandler (sig : Int)
  | restoreSignalHandlerToDefault

def apply (σ : SignalState) : Op → SignalState
  | .initializeLogging => initializeLogging catchable σ
  | .installCrashHandler => installCrashHandler catchable σ
  | .overrideSetupSignals overrideSignals => overrideSetupSignals catchable overrideSignals σ
  | .restoreSignalHandler sig => restoreSignalHandler catchable σ sig
  | .restoreSignalHandlerToDefault => restoreSignalHandlerToDefault catchable σ

/-- The tables after a sequence of calls. -/
def after (σ : SignalState) (ops : List Op) : SignalState := ops.foldl (apply catchable) σ

/-! ## What the loops do -/

theorem installOne_of_catchable {σ : SignalState} {sig : Int} (h : catchable sig = true) :
    installOne catchable σ sig =
      { σ with
        disposition := Function.update σ.disposition sig .signalHandler
        gSavedSigActions := σ.gSavedSigActions.insert sig (σ.disposition sig) } := by
  simp [installOne, sigaction, h]

theorem installOne_of_not_catchable {σ : SignalState} {sig : Int} (h : catchable sig = false) :
    installOne catchable σ sig = σ := by
  simp [installOne, sigaction, h]

/-- Installing over distinct signals saves the disposition each one had. -/
theorem foldl_installOne (ks : List Int) (hks : ks.Nodup) (σ : SignalState) :
    let σ' := ks.foldl (installOne catchable) σ
    σ'.gSignals = σ.gSignals ∧
      (∀ s, σ'.disposition s =
        if s ∈ ks ∧ catchable s then .signalHandler else σ.disposition s) ∧
      ∀ s, σ'.gSavedSigActions[s]? =
        if s ∈ ks ∧ catchable s then some (σ.disposition s) else σ.gSavedSigActions[s]? := by
  induction ks generalizing σ with
  | nil => simp
  | cons k ks ih =>
      obtain ⟨hk, hks⟩ := List.nodup_cons.mp hks
      obtain ⟨hsig, hdisp, hsaved⟩ := ih hks (installOne catchable σ k)
      simp only [List.foldl_cons]
      by_cases hc : catchable k = true
      · rw [installOne_of_catchable catchable hc] at *
        refine ⟨hsig, fun s => ?_, fun s => ?_⟩
        · rw [hdisp]
          by_cases hs : s = k
          · subst hs; simp [hc]
          · simp [hs]
        · rw [hsaved]
          by_cases hs : s = k
          · subst hs; simp [hc, hk]
          · simp [hs, Std.ExtTreeMap.getElem?_insert, Ne.symm hs]
      · rw [installOne_of_not_catchable catchable (by simpa using hc)] at *
        refine ⟨hsig, fun s => ?_, fun s => ?_⟩
        · rw [hdisp]
          by_cases hs : s = k
          · subst hs; simp [hc]
          · simp [hs]
        · rw [hsaved]
          by_cases hs : s = k
          · subst hs; simp [hc]
          · simp [hs]

theorem restoreSignalHandler_spec (σ : SignalState) (sig : Int) :
    let σ' := restoreSignalHandler catchable σ sig
    σ'.gSignals = σ.gSignals ∧
      (∀ s, σ'.disposition s =
        if s = sig ∧ catchable s then (σ.gSavedSigActions[s]?).getD (σ.disposition s)
        else σ.disposition s) ∧
      ∀ s, σ'.gSavedSigActions[s]? = if s = sig then none else σ.gSavedSigActions[s]? := by
  cases hsaved : σ.gSavedSigActions[sig]? with
  | none =>
      refine ⟨by simp [restoreSignalHandler, hsaved], fun s => ?_, fun s => ?_⟩ <;>
        simp only [restoreSignalHandler, hsaved] <;> by_cases hs : s = sig <;> simp [hs, hsaved]
  | some old_action =>
      simp only [restoreSignalHandler, hsaved, sigaction]
      by_cases hc : catchable sig = true
      · refine ⟨by simp [hc], fun s => ?_, fun s => ?_⟩ <;> by_cases hs : s = sig <;>
          simp [hs, hc, hsaved, Std.ExtTreeMap.getElem?_erase, eq_comm (a := sig)]
      · refine ⟨by simp [hc], fun s => ?_, fun s => ?_⟩ <;> by_cases hs : s = sig <;>
          simp [hs, hc, Std.ExtTreeMap.getElem?_erase, eq_comm (a := sig)]

/-- Restoring a list of signals puts each saved disposition back and forgets it. -/
theorem foldl_restoreSignalHandler (ks : List Int) (σ : SignalState) :
    let σ' := ks.foldl (restoreSignalHandler catchable) σ
    σ'.gSignals = σ.gSignals ∧
      (∀ s, σ'.disposition s =
        if s ∈ ks ∧ catchable s then (σ.gSavedSigActions[s]?).getD (σ.disposition s)
        else σ.disposition s) ∧
      ∀ s, σ'.gSavedSigActions[s]? = if s ∈ ks then none else σ.gSavedSigActions[s]? := by
  induction ks generalizing σ with
  | nil => simp
  | cons k ks ih =>
      obtain ⟨hsig, hdisp, hsaved⟩ := ih (restoreSignalHandler catchable σ k)
      obtain ⟨hsig', hdisp', hsaved'⟩ := restoreSignalHandler_spec catchable σ k
      refine ⟨hsig.trans hsig', fun s => ?_, fun s => ?_⟩
      · rw [List.foldl_cons, hdisp, hdisp', hsaved']
        by_cases hs : s = k <;> by_cases hc : catchable s = true <;> simp [hs, hc]
      · rw [List.foldl_cons, hsaved, hsaved']
        by_cases hs : s = k <;> simp [hs]

/-! ## The original dispositions survive -/

/-- No saved disposition is the library's handler, and restoring any signal, as
`exitWithDefaultSignalHandler` does, leaves it with another one. -/
structure Survives (σ : SignalState) : Prop where
  saved : ∀ s : Int, σ.gSavedSigActions[s]? ≠ some Disposition.signalHandler
  restored : ∀ s, (restoreSignalHandler catchable σ s).disposition s ≠ .signalHandler

/-- The handler is not in place yet for any signal that an install would take. -/
def InstallFresh (σ : SignalState) : Prop :=
  ∀ s ∈ σ.gSignals, catchable s = true → σ.disposition s ≠ .signalHandler

/-- A call that installs directly does so freshly. `overrideSetupSignals` restores
before it installs, and later `initializeLogging` calls install nothing. -/
def Fresh (σ : SignalState) : Op → Prop
  | .installCrashHandler => InstallFresh catchable σ
  | .initializeLogging => σ.g_initialize_flag = false → InstallFresh catchable σ
  | _ => True

/-- The tables agree: exactly the saved signals are handled, each by one of
`gSignals`, and each can be put back. -/
structure Valid (σ : SignalState) : Prop where
  handled_iff : ∀ s : Int, σ.disposition s = .signalHandler ↔ (σ.gSavedSigActions[s]?).isSome
  foreign : ∀ s : Int, σ.gSavedSigActions[s]? ≠ some Disposition.signalHandler
  listed : ∀ s : Int, (σ.gSavedSigActions[s]?).isSome → s ∈ σ.gSignals ∧ catchable s = true

variable {catchable}

theorem valid_initial {disposition : Int → Disposition}
    (h : ∀ s, disposition s ≠ .signalHandler) : Valid catchable (initial disposition) where
  handled_iff := by intro s; simp [initial, h]
  foreign := by simp [initial]
  listed := by simp [initial]

theorem Valid.survives {σ : SignalState} (h : Valid catchable σ) : Survives catchable σ where
  saved := h.foreign
  restored := by
    intro s
    rw [(restoreSignalHandler_spec catchable σ s).2.1 s]
    cases hs : σ.gSavedSigActions[s]? with
    | none =>
        have hd : σ.disposition s ≠ .signalHandler := by simp [h.handled_iff, hs]
        simpa [hs] using hd
    | some d =>
        have hc : catchable s = true := (h.listed s (by simp [hs])).2
        have hd : d ≠ .signalHandler := fun hd => h.foreign s (hd ▸ hs)
        simpa [hc] using hd

theorem Valid.installCrashHandler {σ : SignalState} (h : Valid catchable σ)
    (hfresh : InstallFresh catchable σ) : Valid catchable (installCrashHandler catchable σ) := by
  obtain ⟨hsig, hdisp, hsaved⟩ :=
    foldl_installOne catchable σ.gSignals.keys Std.ExtTreeMap.nodup_keys σ
  simp only [Std.ExtTreeMap.mem_keys] at hdisp hsaved
  refine ⟨fun s => ?_, fun s => ?_, fun s => ?_⟩
  · simp only [SignalState.installCrashHandler, installSignalHandler, hdisp, hsaved]
    split <;> simp [h.handled_iff]
  · simp only [SignalState.installCrashHandler, installSignalHandler, hsaved]
    split
    · rename_i hs
      simpa using hfresh s hs.1 hs.2
    · exact h.foreign s
  · simp only [SignalState.installCrashHandler, installSignalHandler, hsaved, hsig]
    split
    · rename_i hs; exact fun _ => hs
    · exact h.listed s

theorem Valid.restoreSignalHandler {σ : SignalState} (h : Valid catchable σ) (sig : Int) :
    Valid catchable (restoreSignalHandler catchable σ sig) := by
  have hrestored := h.survives.restored sig
  obtain ⟨hsig, hdisp, hsaved⟩ := restoreSignalHandler_spec catchable σ sig
  refine ⟨fun s => ?_, fun s => ?_, fun s => ?_⟩
  · by_cases hs : s = sig
    · subst hs; simp [hrestored, hsaved]
    · simp [hdisp, hsaved, hs, h.handled_iff]
  · rw [hsaved]
    split
    · simp
    · exact h.foreign s
  · rw [hsaved, hsig]
    split
    · simp
    · exact h.listed s

/-- After every listed signal is restored, nothing is saved and nothing handled. -/
theorem Valid.overrideSetupSignals {σ : SignalState} (h : Valid catchable σ)
    (overrideSignals : SignalMap) :
    Valid catchable (overrideSetupSignals catchable overrideSignals σ) := by
  obtain ⟨hsig, hdisp, hsaved⟩ :=
    foldl_restoreSignalHandler catchable σ.gSignals.keys σ
  have hvalid :
      Valid catchable (σ.gSignals.keys.foldl (SignalState.restoreSignalHandler catchable) σ) :=
    List.foldlRecOn _ _ h fun _ ht s _ => ht.restoreSignalHandler s
  have hnone (s : Int) : (σ.gSignals.keys.foldl
      (SignalState.restoreSignalHandler catchable) σ).gSavedSigActions[s]? = none := by
    rw [hsaved]
    split
    · rfl
    · rename_i hs
      rw [Std.ExtTreeMap.mem_keys] at hs
      exact Option.isNone_iff_eq_none.mp (by simpa using mt (h.listed s) (fun h' => hs h'.1))
  have hfree (s : Int) : (σ.gSignals.keys.foldl
      (SignalState.restoreSignalHandler catchable) σ).disposition s ≠ .signalHandler := by
    simp [hvalid.handled_iff, hnone]
  refine Valid.installCrashHandler ⟨fun s => ?_, fun s => ?_, fun s => ?_⟩ fun s _ _ => hfree s
  · simp [hfree, hnone]
  · simp [hnone]
  · simp [hnone]

/-- A call that installs freshly keeps the tables in agreement. -/
theorem Valid.apply {σ : SignalState} (h : Valid catchable σ) {op : Op}
    (hfresh : Fresh catchable σ op) : Valid catchable (apply catchable σ op) := by
  cases op with
  | initializeLogging =>
      simp only [SignalState.apply, SignalState.initializeLogging]
      split
      · exact h
      · rename_i hflag
        obtain ⟨h1, h2, h3⟩ := h.installCrashHandler (hfresh (by simpa using hflag))
        exact ⟨h1, h2, h3⟩
  | installCrashHandler => exact h.installCrashHandler hfresh
  | overrideSetupSignals overrideSignals => exact h.overrideSetupSignals overrideSignals
  | restoreSignalHandler sig => exact h.restoreSignalHandler sig
  | restoreSignalHandlerToDefault => exact h.overrideSetupSignals kSignals

/-- Installing over the library's own handler saves it. -/
theorem saved_of_not_installFresh {σ : SignalState} (h : ¬ InstallFresh catchable σ) :
    ∃ s : Int,
      (installCrashHandler catchable σ).gSavedSigActions[s]? = some Disposition.signalHandler := by
  simp only [InstallFresh, not_forall, not_not] at h
  obtain ⟨s, hs, hc, hd⟩ := h
  obtain ⟨-, -, hsaved⟩ :=
    foldl_installOne catchable σ.gSignals.keys Std.ExtTreeMap.nodup_keys σ
  refine ⟨s, ?_⟩
  rw [installCrashHandler, installSignalHandler, hsaved]
  simp [hs, hc, hd]

theorem not_survives_apply_of_not_fresh {σ : SignalState} {op : Op}
    (h : ¬ Fresh catchable σ op) : ¬ Survives catchable (apply catchable σ op) := by
  intro hs
  cases op with
  | initializeLogging =>
      simp only [Fresh, Classical.not_imp] at h
      obtain ⟨s, hsaved⟩ := saved_of_not_installFresh h.2
      exact hs.saved s (by simpa [apply, initializeLogging, h.1] using hsaved)
  | installCrashHandler =>
      obtain ⟨s, hsaved⟩ := saved_of_not_installFresh h
      exact hs.saved s hsaved
  | overrideSetupSignals => exact h trivial
  | restoreSignalHandler => exact h trivial
  | restoreSignalHandlerToDefault => exact h trivial

/-- Over any sequence of calls from a process the library has not touched, the
original dispositions survive in every state exactly when every direct install
finds none of its signals handled by the library already. -/
theorem survives_iff_fresh (catchable : Int → Bool) (disposition : Int → Disposition)
    (h₀ : ∀ s, disposition s ≠ .signalHandler) (ops : List Op) :
    (∀ pre, pre <+: ops → Survives catchable (after catchable (initial disposition) pre)) ↔
      ∀ pre op, pre ++ [op] <+: ops →
        Fresh catchable (after catchable (initial disposition) pre) op := by
  constructor
  · intro h pre op hpre
    by_contra hfresh
    refine not_survives_apply_of_not_fresh hfresh ?_
    simpa [after] using h (pre ++ [op]) hpre
  · intro h pre hpre
    suffices hvalid : Valid catchable (after catchable (initial disposition) pre) from
      hvalid.survives
    induction pre using List.reverseRecOn with
    | nil => exact valid_initial h₀
    | append_singleton pre op ih =>
        have hinit := ih ((List.prefix_append pre [op]).trans hpre)
        simpa [after] using hinit.apply (h pre op hpre)

/-- The custom set of signals of a program that handles only *SIGTERM*. -/
def onlySigterm : SignalMap := .ofList [(SIGTERM, "SIGTERM")]

/-- A second logger after the signals have been overridden, in a program with an action of its
own for *SIGTERM*, where *SIGKILL* cannot be caught. -/
theorem survives_iff_fresh_default :
    let catchable : Int → Bool := fun s => s ≠ 9
    let disposition : Int → Disposition := fun s => .other (if s = SIGTERM then 1 else 0)
    let ops : List Op := [.initializeLogging, .restoreSignalHandler SIGTERM,
      .overrideSetupSignals onlySigterm, .initializeLogging]
    ∀ pre, pre <+: ops → Survives catchable (after catchable (initial disposition) pre) := by
  intro catchable disposition ops
  have hforeign : ∀ s, disposition s ≠ .signalHandler := by
    intro s hs
    cases hs
  refine (survives_iff_fresh catchable disposition hforeign ops).mpr ?_
  intro pre op hpre
  simp only [ops, ← List.mem_inits, List.inits, List.map_cons, List.map_nil, List.mem_cons,
    List.append_eq_nil_iff, List.cons_ne_self, List.not_mem_nil, and_false, false_or,
    or_false] at hpre
  have hlast (front : List Op) {last : Op} (h : pre ++ [op] = front ++ [last]) :
      pre = front ∧ op = last := by
    obtain ⟨rfl, hop⟩ := List.append_inj' h rfl
    exact ⟨rfl, List.singleton_inj.mp hop⟩
  rcases hpre with h | h | h | h
  · obtain ⟨rfl, rfl⟩ := hlast [] h
    intro _ s _ _
    exact hforeign s
  · obtain ⟨rfl, rfl⟩ := hlast [_] h
    trivial
  · obtain ⟨rfl, rfl⟩ := hlast [_, _] h
    trivial
  · obtain ⟨rfl, rfl⟩ := hlast [_, _, _] h
    intro hflag
    exact absurd hflag (by decide +kernel)

/-- Overriding the signals before the first `initializeLogging` installs twice. -/
theorem handler_saved_by_second_install :
    ¬ ∀ (catchable : Int → Bool) (disposition : Int → Disposition),
      (∀ s, disposition s ≠ .signalHandler) →
      ∀ ops, Survives catchable (after catchable (initial disposition) ops) := by
  intro h
  have hs := h (fun _ => true) (fun _ => .other 0) (fun _ => nofun)
    [.overrideSetupSignals onlySigterm, .initializeLogging]
  exact hs.saved SIGTERM (by decide)

/-! ## An override installs its own set -/

/-- The saved signals are among `gSignals` and are the ones that are handled, and none was
saved with the library's handler. -/
structure Settled (σ : SignalState) : Prop where
  listed : ∀ s, s ∈ σ.gSavedSigActions → s ∈ σ.gSignals
  handled_iff : ∀ s, σ.disposition s = .signalHandler ↔ s ∈ σ.gSavedSigActions
  foreign : ∀ s : Int, σ.gSavedSigActions[s]? ≠ some Disposition.signalHandler

theorem Valid.settled {σ : SignalState} (h : Valid catchable σ) : Settled σ where
  listed := by
    intro s hs
    exact (h.listed s (by simpa using hs)).1
  handled_iff := by
    intro s
    simp [h.handled_iff s]
  foreign := h.foreign

theorem Settled.valid {σ : SignalState} (h : Settled σ)
    (hcatchable : ∀ s ∈ σ.gSignals, catchable s = true) : Valid catchable σ where
  handled_iff := by
    intro s
    simp [h.handled_iff s]
  foreign := h.foreign
  listed := by
    intro s hs
    have hmem := h.listed s (by simpa using hs)
    exact ⟨hmem, hcatchable s hmem⟩

/-- The dispositions after an override: first the saved ones are put back, then the new set
is taken. -/
theorem disposition_overrideSetupSignals (σ : SignalState) (overrideSignals : SignalMap)
    (s : Int) : (overrideSetupSignals catchable overrideSignals σ).disposition s =
      if s ∈ overrideSignals ∧ catchable s then .signalHandler
      else if s ∈ σ.gSignals ∧ catchable s then
        (σ.gSavedSigActions[s]?).getD (σ.disposition s)
      else σ.disposition s := by
  have hrestore := (foldl_restoreSignalHandler catchable σ.gSignals.keys σ).2.1 s
  have hinstall := (foldl_installOne catchable overrideSignals.keys Std.ExtTreeMap.nodup_keys
    { σ.gSignals.keys.foldl (restoreSignalHandler catchable) σ with
      gSignals := overrideSignals }).2.1 s
  simp only [Std.ExtTreeMap.mem_keys] at hrestore hinstall
  rw [overrideSetupSignals, installCrashHandler, installSignalHandler, hinstall, hrestore]

/-- After an override, the library handles the signals of the new set and no others; those
of the old set that it gave up are as they were before it took them. -/
theorem overrideSetupSignals_installs (catchable : Int → Bool) (σ : SignalState)
    (h : Settled σ) (overrideSignals : SignalMap)
    (hcatchable : ∀ s, s ∈ σ.gSignals ∨ s ∈ overrideSignals → catchable s = true) :
    let σ' := overrideSetupSignals catchable overrideSignals σ
    σ'.gSignals = overrideSignals ∧
      (∀ s, σ'.disposition s = .signalHandler ↔ s ∈ overrideSignals) ∧
      (∀ s ∈ σ.gSignals, s ∉ overrideSignals →
        σ'.disposition s = (σ.gSavedSigActions[s]?).getD (σ.disposition s)) ∧
      (∀ s, s ∉ σ.gSignals → s ∉ overrideSignals →
        σ'.disposition s = σ.disposition s ∧ σ'.gSavedSigActions[s]? = none) ∧
      Settled σ' := by
  intro σ'
  have hvalid : Valid catchable σ' := Valid.overrideSetupSignals
    (h.valid fun s hs => hcatchable s (.inl hs)) overrideSignals
  have hsignals : σ'.gSignals = overrideSignals :=
    (foldl_installOne catchable overrideSignals.keys Std.ExtTreeMap.nodup_keys _).1
  have hdisposition (s : Int) : σ'.disposition s = _ :=
    disposition_overrideSetupSignals σ overrideSignals s
  refine ⟨hsignals, ?_, ?_, ?_, hvalid.settled⟩
  · intro s
    constructor
    · intro hhandled
      have hlisted := hvalid.settled.listed s ((hvalid.settled.handled_iff s).mp hhandled)
      rwa [hsignals] at hlisted
    · intro hs
      rw [hdisposition, if_pos ⟨hs, hcatchable s (.inr hs)⟩]
  · intro s hold hnew
    rw [hdisposition, if_neg (by simp [hnew]), if_pos ⟨hold, hcatchable s (.inl hold)⟩]
  · intro s hold hnew
    constructor
    · rw [hdisposition, if_neg (by simp [hnew]), if_neg (by simp [hold])]
    · by_contra hsaved
      have hlisted := (hvalid.listed s (Option.isSome_iff_ne_none.mpr hsaved)).1
      rw [hsignals] at hlisted
      exact hnew hlisted

/-- The default signals are handled, and then only *SIGTERM* is to be. -/
theorem overrideSetupSignals_installs_onlySigterm :
    ∃ σ : SignalState, Settled σ ∧ σ.disposition SIGABRT = .signalHandler ∧
      Settled (overrideSetupSignals (fun _ => true) onlySigterm σ) ∧
      (overrideSetupSignals (fun _ => true) onlySigterm σ).disposition SIGTERM =
        .signalHandler := by
  have hvalid : Valid (fun _ => true)
      (apply (fun _ => true) (initial fun _ => .other 0) .initializeLogging) := by
    apply Valid.apply
    · apply valid_initial
      intro s
      exact Disposition.noConfusion
    · intro _ s _ _
      exact Disposition.noConfusion
  have hinstalls := overrideSetupSignals_installs (fun _ => true) _ hvalid.settled onlySigterm
    (fun _ _ => rfl)
  refine ⟨_, hvalid.settled, by decide +kernel, hinstalls.2.2.2.2, ?_⟩
  rw [hinstalls.2.1]
  decide +kernel

end Calls
end SignalState
end G3log
