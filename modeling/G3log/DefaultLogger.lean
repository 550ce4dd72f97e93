import G3log.FileParts
import G3log.SinkLifetime

/-!
# The default loggers

`addDefaultLogger` gives the worker three file sinks, for the levels *ERROR*, *WARNING*
and *INFO*. Each has a thread of its own and gets its own copy of every message, and
they write to one disk as their threads come to it. `default_loggers_nested` says what
is in the three files once the worker is destroyed: a header unless there was no
message, the messages at or above the level in the order they were saved, and the line
of `~FileSink`. So a file with a higher level is a part of the one below.

## Main definitions

* `FileLogger`, `FileLogger.step` -- the worker with its file sinks and the disk.
* `addDefaultLogger` -- the three sinks, made one after the other.
* `State.saved` -- the messages saved on a worker.
* `entries`, `Holds` -- what a file is to contain.
-/

namespace G3log

open Transition Broadcast

/-! ## What a file is to contain -/

/-- The entries of a file for the messages at or above a level. -/
def entries (env : Env) (level : LEVELS) (msgs : List LogMessage) : List String :=
  (msgs.filter fun msg => decide (level.value ≤ msg.level_value)).map fun msg =>
    (msg.toString env).1

/-- One header if there was a message, and none before. -/
def IsHeader (env : Env) (msgs : List LogMessage) (text : String) : Prop :=
  if msgs = [] then text = "" else ∃ now, text = header env FileSink.defaultHeader now

/-- The bytes of a file: a header, the entries and something at the end. -/
def Holds (env : Env) (level : LEVELS) (msgs : List LogMessage) (bytes : List Char)
    (last : String) : Prop :=
  ∃ header, IsHeader env msgs header ∧
    bytes = header.toList ++ (entries env level msgs).flatMap String.toList ++ last.toList

theorem entries_append (env : Env) (level : LEVELS) (msgs msgs' : List LogMessage) :
    entries env level (msgs ++ msgs') = entries env level msgs ++ entries env level msgs' := by
  simp [entries]

/-- A higher level keeps a part of the entries. -/
theorem entries_sublist (env : Env) {level level' : LEVELS} (h : level.value ≤ level'.value)
    (msgs : List LogMessage) : (entries env level' msgs).Sublist (entries env level msgs) := by
  refine List.Sublist.map _ ?_
  refine List.monotone_filter_right msgs fun msg hmsg => ?_
  simp only [decide_eq_true_eq] at hmsg ⊢
  omega

/-! ## The worker and the disk -/

/-- A worker with file sinks, and the disk they write to. -/
structure FileLogger where
  worker : State Unit Unit
  /-- The real sink of a sink, if it is a file sink that has not been destroyed. -/
  sinks : SinkId → Option FileSink
  disk : Disk

namespace FileLogger

/-- The default log call of a sink, `FileSink::fileWrite`. -/
def fileWrite (env : Env) (now : Int) (s : SinkId) (i : ℕ) (msg : LogMessage) (L : FileLogger) :
    Option FileLogger :=
  match L.sinks s with
  | none => some L
  | some sink =>
      (FileSink.State.fileWrite env now i msg ⟨sink, L.disk⟩).map fun σ =>
        { L with sinks := Function.update L.sinks s (some σ.sink), disk := σ.disk }

/-- `_real_sink` is destroyed. -/
def destroy (env : Env) (now : Int) (s : SinkId) (L : FileLogger) : Option FileLogger :=
  match L.sinks s with
  | none => some L
  | some sink =>
      (FileSink.State.destroy env now ⟨sink, L.disk⟩).map fun σ =>
        { L with sinks := Function.update L.sinks s none, disk := σ.disk }

def perform (env : Env) (now : Int) (L : FileLogger) : Effect → Option FileLogger
  | .none => some L
  | .log s msg => L.fileWrite env now s (L.worker.sinks s).logged.length msg
  | .destroy s => L.destroy env now s

/-- A step of the worker, with the time it reads. -/
def step (env : Env) (L : FileLogger) (a : Action × Int) : Option FileLogger :=
  (G3log.step L.worker a.1).bind fun worker =>
    (L.perform env a.2 (L.worker.effect a.1)).map fun L' => { L' with worker := worker }

end FileLogger

/-- The runs from a worker with its file sinks. -/
def fileLogger (env : Env) (L₀ : FileLogger) : System FileLogger (Action × Int) where
  Start := fun L => L = L₀
  step := FileLogger.step env

/-! ## One file sink -/

/-- A file sink as the constructor leaves it. -/
structure Opened (k : FileSink) (disk : Disk) : Prop where
  func : k._log_details_func = .DefaultLogDetailsToString
  header : k._header = FileSink.defaultHeader
  firstEntry : k._firstEntry = true
  atEnd : FileSink.AtEnd ⟨k, disk⟩ []

/-- A file sink that was made as `k₀`, and has logged some messages. -/
structure Writes (env : Env) (k₀ : FileSink) (msgs : List LogMessage) (k : FileSink)
    (disk : Disk) : Prop where
  sink : k = { k₀ with _outptr := k._outptr, _firstEntry := msgs.isEmpty }
  holds : ∃ cs, FileSink.AtEnd ⟨k, disk⟩ cs ∧
    Holds env k₀.min_loglevel_ msgs (cs.map Cell.byte) ""

/-- The file of one that is destroyed. -/
def Written (env : Env) (level : LEVELS) (path : String) (msgs : List LogMessage) (disk : Disk) :
    Prop :=
  ∃ cs now, disk.files path = some cs ∧
    Holds env level msgs (cs.map Cell.byte) (FileSink.exit_msg env now)

@[simp] theorem byte_own (text : String) : (own text).map Cell.byte = text.toList := by
  simp [own, Function.comp_def]

@[simp] theorem byte_ofMessage (i : ℕ) (text : String) :
    (ofMessage i text).map Cell.byte = text.toList := by
  simp [ofMessage, Function.comp_def]

section
variable {env : Env} {k₀ k : FileSink} {disk disk' : Disk} {msgs : List LogMessage}

theorem Opened.writes (h : Opened k₀ disk) (env : Env) : Writes env k₀ [] k₀ disk where
  sink := by rw [List.isEmpty_nil, ← h.firstEntry]
  holds := ⟨[], h.atEnd, "", by simp [IsHeader], by simp [entries]⟩

/-- A sink that other sinks write beside. -/
theorem Writes.other (h : Writes env k₀ msgs k disk)
    (hdisk : disk'.files k._log_file_with_path = disk.files k._log_file_with_path) :
    Writes env k₀ msgs k disk' where
  sink := h.sink
  holds := by
    obtain ⟨cs, hend, hcs⟩ := h.holds
    exact ⟨cs, ⟨hend.outptr, hdisk.trans hend.file⟩, hcs⟩

theorem Writes.fileName (h : Writes env k₀ msgs k disk) :
    k._log_file_with_path = k₀._log_file_with_path := by
  rw [h.sink]

/-- The header stays the only one, and the entry of the message comes last. -/
theorem Holds.fileWrite {level : LEVELS} {bytes : List Char} (h : Holds env level msgs bytes "")
    (now : Int) (msg : LogMessage) :
    Holds env level (msgs ++ [msg])
      ((bytes ++ if msgs.isEmpty then (header env FileSink.defaultHeader now).toList else []) ++
        if msg.level_value < level.value then [] else (msg.toString env).1.toList) "" := by
  obtain ⟨text, htext, hbytes⟩ := h
  have hentry : (entries env level [msg]).flatMap String.toList =
      if msg.level_value < level.value then [] else (msg.toString env).1.toList := by
    by_cases hlevel : msg.level_value < level.value
    · simp [entries, hlevel, not_le.mpr hlevel]
    · simp [entries, hlevel, not_lt.mp hlevel]
  rw [← hentry]
  by_cases hmsgs : msgs = []
  · subst hmsgs
    obtain rfl : text = "" := by simpa [IsHeader] using htext
    refine ⟨header env FileSink.defaultHeader now, ?_, ?_⟩
    · rw [IsHeader, if_neg (by simp)]
      exact ⟨now, rfl⟩
    · simp [hbytes, entries]
  · refine ⟨text, ?_, ?_⟩
    · rw [IsHeader, if_neg hmsgs] at htext
      rw [IsHeader, if_neg (by simp)]
      exact htext
    · simp [hbytes, hmsgs, entries_append]

theorem Writes.fileWrite (h : Writes env k₀ msgs k disk) (h₀ : Opened k₀ disk') (now : Int) (i : ℕ)
    (msg : LogMessage) :
    ∃ σ, FileSink.State.fileWrite env now i msg ⟨k, disk⟩ = some σ ∧
      Writes env k₀ (msgs ++ [msg]) σ.sink σ.disk ∧
      ∀ path ≠ k₀._log_file_with_path, σ.disk.files path = disk.files path := by
  obtain ⟨cs, hend, hcs⟩ := h.holds
  obtain ⟨σ, hσ, hend', hwrote⟩ := hend.fileWrite env now i msg
  have hsink := h.sink
  refine ⟨σ, hσ, ⟨?_, _, hend', ?_⟩, fun path hpath => hwrote.other path ?_⟩
  · rw [hwrote.sink, hsink]
    simp
  · have hfunc : k._log_details_func = .DefaultLogDetailsToString := by rw [hsink, h₀.func]
    have hheader : k._header = FileSink.defaultHeader := by rw [hsink, h₀.header]
    have hfirst : k._firstEntry = msgs.isEmpty := by rw [hsink]
    have hlevel : k.min_loglevel_ = k₀.min_loglevel_ := by rw [hsink]
    have hbytes := hcs.fileWrite now msg
    simp only [hfirst, hheader, hlevel, hfunc, List.map_append, apply_ite (List.map Cell.byte),
      List.map_nil, byte_own, byte_ofMessage]
    exact hbytes
  · rwa [FileSink.State.fileName, h.fileName]

theorem Writes.destroy (h : Writes env k₀ msgs k disk) (now : Int) :
    ∃ σ, FileSink.State.destroy env now ⟨k, disk⟩ = some σ ∧
      Written env k₀.min_loglevel_ k₀._log_file_with_path msgs σ.disk ∧
      ∀ path ≠ k₀._log_file_with_path, σ.disk.files path = disk.files path := by
  obtain ⟨cs, hend, text, htext, hcs⟩ := h.holds
  obtain ⟨σ, hσ, hend', hwrote⟩ := hend.insert (own (FileSink.exit_msg env now))
  refine ⟨σ, hσ, ⟨cs ++ own (FileSink.exit_msg env now), now, ?_, text, htext, ?_⟩,
    fun path hpath => hwrote.other path ?_⟩
  · have hfile := hend'.file
    rw [FileSink.State.fileName, hwrote.sink] at hfile
    rw [← h.fileName]
    exact hfile
  · simp [hcs]
  · rwa [FileSink.State.fileName, h.fileName]

end

/-! ## All of them on one disk -/

/-- File sinks that are open, each with a file of its own. -/
structure Separate (L : FileLogger) : Prop where
  opened : ∀ s k, L.sinks s = some k → Opened k L.disk
  created : ∀ s k, L.sinks s = some k → (L.worker.sinks s).created = true ∧
    (L.worker.sinks s)._real_sink ≠ none ∧ (L.worker.sinks s).logged = []
  distinct : ∀ s s' k k', s' ≠ s → L.sinks s = some k → L.sinks s' = some k' →
    k'._log_file_with_path ≠ k._log_file_with_path

/-- What has become of a sink that was made as `k₀`: it has written what its thread has
logged, and the last line if it is destroyed. -/
structure Logs (env : Env) (L : FileLogger) (s : SinkId) (k₀ : FileSink) : Prop where
  created : (L.worker.sinks s).created = true
  file :
    (∃ k, L.sinks s = some k ∧ (L.worker.sinks s)._real_sink ≠ none ∧
      Writes env k₀ (L.worker.sinks s).logged k L.disk) ∨
    (L.sinks s = none ∧ (L.worker.sinks s)._real_sink = none ∧
      Written env k₀.min_loglevel_ k₀._log_file_with_path (L.worker.sinks s).logged L.disk)

/-- The file sinks that were there at first, and no others. -/
structure AllLog (env : Env) (L₀ L : FileLogger) : Prop where
  others : ∀ s, L₀.sinks s = none → L.sinks s = none
  logs : ∀ s k₀, L₀.sinks s = some k₀ → Logs env L s k₀

section
variable {env : Env} {L₀ L L' : FileLogger} {s : SinkId} {k₀ : FileSink}

theorem Separate.allLog (h : Separate L) (env : Env) : AllLog env L L where
  others := fun _ hs => hs
  logs := fun s k hs => by
    obtain ⟨hcreated, hreal, hlogged⟩ := h.created s k hs
    refine ⟨hcreated, .inl ⟨k, hs, hreal, ?_⟩⟩
    rw [hlogged]
    exact (h.opened s k hs).writes env

/-- A sink that a step is not about. -/
theorem Logs.other (h : Logs env L s k₀) {effect : Effect}
    (htouched : Touched s (L.worker.sinks s) effect (L'.worker.sinks s))
    (hlogs : effect.logs s = []) (hdestroy : effect ≠ .destroy s)
    (hsinks : L'.sinks s = L.sinks s)
    (hdisk : L'.disk.files k₀._log_file_with_path = L.disk.files k₀._log_file_with_path) :
    Logs env L' s k₀ := by
  have hlogged : (L'.worker.sinks s).logged = (L.worker.sinks s).logged := by
    rw [htouched.logged, hlogs, List.append_nil]
  have hgone : (L'.worker.sinks s)._real_sink = none ↔ (L.worker.sinks s)._real_sink = none := by
    simp [htouched.gone h.created, hdestroy]
  refine ⟨htouched.created h.created, ?_⟩
  rw [hlogged, hsinks, Ne, hgone]
  rcases h.file with ⟨k, hk, hreal, hwrites⟩ | ⟨hk, hreal, cs, now, hfile, hcs⟩
  · refine .inl ⟨k, hk, hreal, hwrites.other ?_⟩
    rw [hwrites.fileName, hdisk]
  · exact .inr ⟨hk, hreal, cs, now, hdisk.trans hfile, hcs⟩

/-- A step that is about one sink. -/
theorem AllLog.move (h : AllLog env L₀ L) {s₁ : SinkId} {effect : Effect}
    (htouched : ∀ s, Touched s (L.worker.sinks s) effect (L'.worker.sinks s))
    (heffect : ∀ s ≠ s₁, effect.logs s = [] ∧ effect ≠ .destroy s)
    (hsinks : ∀ s ≠ s₁, L'.sinks s = L.sinks s)
    (hdisk : ∀ s ≠ s₁, ∀ k₀, L₀.sinks s = some k₀ →
      L'.disk.files k₀._log_file_with_path = L.disk.files k₀._log_file_with_path)
    (hothers : L₀.sinks s₁ = none → L'.sinks s₁ = none)
    (hlogs : ∀ k₀, L₀.sinks s₁ = some k₀ → Logs env L' s₁ k₀) : AllLog env L₀ L' where
  others := by
    intro s hs
    by_cases hss : s = s₁
    · subst hss
      exact hothers hs
    · rw [hsinks s hss]
      exact h.others s hs
  logs := by
    intro s k₀ hk₀
    by_cases hss : s = s₁
    · subst hss
      exact hlogs k₀ hk₀
    · exact (h.logs s k₀ hk₀).other (htouched s) (heffect s hss).1 (heffect s hss).2
        (hsinks s hss) (hdisk s hss k₀ hk₀)

/-- A log call finds its stream, and every sink goes on. -/
theorem AllLog.log (h : AllLog env L₀ L) (h₀ : Separate L₀) (now : Int) {s₁ : SinkId}
    {msg : LogMessage} {worker : State Unit Unit}
    (htouched : ∀ s, Touched s (L.worker.sinks s) (.log s₁ msg) (worker.sinks s)) :
    ∃ L₁, L.perform env now (.log s₁ msg) = some L₁ ∧
      AllLog env L₀ { L₁ with worker := worker } := by
  have heffect : ∀ s ≠ s₁, (Effect.log s₁ msg).logs s = [] ∧ Effect.log s₁ msg ≠ .destroy s := by
    intro s hs
    simp [Effect.logs, Ne.symm hs]
  have hreal := (htouched s₁).real msg rfl
  cases hk₁ : L₀.sinks s₁ with
  | none =>
      have hsink := h.others s₁ hk₁
      refine ⟨L, by simp [FileLogger.perform, FileLogger.fileWrite, hsink], ?_⟩
      refine h.move htouched heffect ?_ ?_ (fun _ => hsink) ?_
      · exact fun _ _ => rfl
      · exact fun _ _ _ _ => rfl
      · simp [hk₁]
  | some k₁₀ =>
      have hlogs := h.logs s₁ k₁₀ hk₁
      obtain ⟨k₁, hsink, -, hwrites⟩ := hlogs.file.resolve_right fun hgone => hreal hgone.2.1
      obtain ⟨σ, hσ, hwrites', hframe⟩ := hwrites.fileWrite (h₀.opened s₁ k₁₀ hk₁) now
        (L.worker.sinks s₁).logged.length msg
      refine ⟨{ L with sinks := Function.update L.sinks s₁ (some σ.sink), disk := σ.disk },
        by simp [FileLogger.perform, FileLogger.fileWrite, hsink, hσ], ?_⟩
      refine h.move htouched heffect ?_ ?_ (by simp [hk₁]) ?_
      · intro s hs
        simp [hs]
      · exact fun s hs k₀ hk₀ => hframe _ (h₀.distinct s₁ s k₁₀ k₀ hs hk₁ hk₀)
      · intro k₀ hk₀
        obtain rfl : k₁₀ = k₀ := Option.some.inj (hk₁.symm.trans hk₀)
        refine ⟨(htouched s₁).created hlogs.created, .inl ⟨σ.sink, by simp, ?_, ?_⟩⟩
        · simpa [(htouched s₁).gone hlogs.created] using hreal
        · rw [(htouched s₁).logged]
          simpa [Effect.logs] using hwrites'

/-- A destructor finds its stream, and every other sink goes on. -/
theorem AllLog.destroy (h : AllLog env L₀ L) (h₀ : Separate L₀) (now : Int) {s₁ : SinkId}
    {worker : State Unit Unit}
    (htouched : ∀ s, Touched s (L.worker.sinks s) (.destroy s₁) (worker.sinks s)) :
    ∃ L₁, L.perform env now (.destroy s₁) = some L₁ ∧
      AllLog env L₀ { L₁ with worker := worker } := by
  have heffect : ∀ s ≠ s₁, (Effect.destroy s₁).logs s = [] ∧ Effect.destroy s₁ ≠ .destroy s := by
    intro s hs
    simp [Ne.symm hs]
  have hlogged : (worker.sinks s₁).logged = (L.worker.sinks s₁).logged := by
    simp [(htouched s₁).logged]
  cases hsink : L.sinks s₁ with
  | none =>
      refine ⟨L, by simp [FileLogger.perform, FileLogger.destroy, hsink], ?_⟩
      refine h.move htouched heffect ?_ ?_ (fun _ => hsink) ?_
      · exact fun _ _ => rfl
      · exact fun _ _ _ _ => rfl
      · intro k₀ hk₀
        have hlogs := h.logs s₁ k₀ hk₀
        obtain ⟨-, -, hwritten⟩ := hlogs.file.resolve_left (by simp [hsink])
        refine ⟨(htouched s₁).created hlogs.created, .inr ⟨hsink, ?_, ?_⟩⟩
        · exact ((htouched s₁).gone hlogs.created).mpr (.inr rfl)
        · rw [hlogged]
          exact hwritten
  | some k₁ =>
      cases hk₁ : L₀.sinks s₁ with
      | none => simp [h.others s₁ hk₁] at hsink
      | some k₁₀ =>
          have hlogs := h.logs s₁ k₁₀ hk₁
          obtain ⟨k, hk, -, hwrites⟩ := hlogs.file.resolve_right (by simp [hsink])
          obtain rfl : k₁ = k := Option.some.inj (hsink.symm.trans hk)
          obtain ⟨σ, hσ, hwritten, hframe⟩ := hwrites.destroy now
          refine ⟨{ L with sinks := Function.update L.sinks s₁ none, disk := σ.disk },
            by simp [FileLogger.perform, FileLogger.destroy, hsink, hσ], ?_⟩
          refine h.move htouched heffect ?_ ?_ (by simp [hk₁]) ?_
          · intro s hs
            simp [hs]
          · exact fun s hs k₀ hk₀ => hframe _ (h₀.distinct s₁ s k₁₀ k₀ hs hk₁ hk₀)
          · intro k₀ hk₀
            obtain rfl : k₁₀ = k₀ := Option.some.inj (hk₁.symm.trans hk₀)
            refine ⟨(htouched s₁).created hlogs.created, .inr ⟨by simp, ?_, ?_⟩⟩
            · exact ((htouched s₁).gone hlogs.created).mpr (.inr rfl)
            · rw [hlogged]
              exact hwritten

/-- Whenever the worker can take a step, so can it with its file sinks. -/
theorem AllLog.step (h : AllLog env L₀ L) (h₀ : Separate L₀) (ho : Owned L.worker)
    {a : Action × Int} {worker : State Unit Unit}
    (hs : G3log.step L.worker a.1 = some worker) :
    ∃ L', FileLogger.step env L a = some L' ∧ L'.worker = worker ∧ AllLog env L₀ L' := by
  have htouched := (step_cases hs).2.touches ho
  have hperform : ∃ L₁, L.perform env a.2 (L.worker.effect a.1) = some L₁ ∧
      AllLog env L₀ { L₁ with worker := worker } := by
    cases heffect : L.worker.effect a.1 with
    | none =>
        rw [heffect] at htouched
        refine ⟨L, rfl, h.others, fun s k₀ hk₀ => ?_⟩
        exact (h.logs s k₀ hk₀).other (htouched s) rfl (by simp) rfl rfl
    | log s₁ msg =>
        rw [heffect] at htouched
        exact h.log h₀ a.2 htouched
    | destroy s₁ =>
        rw [heffect] at htouched
        exact h.destroy h₀ a.2 htouched
  obtain ⟨L₁, hL₁, hall⟩ := hperform
  exact ⟨{ L₁ with worker := worker }, by simp [FileLogger.step, hs, hL₁], rfl, hall⟩

end

/-! ## The messages saved -/

namespace State
variable {T R : Type}

/-- The messages put into the queue ahead of the task that clears the sinks. -/
def saved (σ : State T R) : List LogMessage :=
  published (((Active.untilDone σ._bg.sent).map WorkerTask.event).takeWhile fun e => !isClear e)

end State

section
variable {T R : Type} {σ σ' : State T R}

/-- A callback adds its message, or none if the sinks are cleared before. -/
theorem saved_send {c : Callback WorkerTask} (hsent : σ'._bg.sent = σ._bg.sent ++ [c]) :
    σ'.saved = σ.saved ∨ σ'.saved = σ.saved ++ published (events [c]) := by
  rw [State.saved, State.saved, hsent]
  by_cases hdone : .done ∈ σ._bg.sent
  · obtain ⟨front, back, hsplit, hfront⟩ := List.eq_append_cons_of_mem hdone
    rw [hsplit, List.append_assoc, List.cons_append, Active.untilDone_append_done hfront,
      Active.untilDone_append_done hfront]
    exact .inl rfl
  · have hopen : Active.untilDone σ._bg.sent = workOf σ._bg.sent := by
      rw [← List.append_nil σ._bg.sent, Active.untilDone_append hdone]
      simp [Active.untilDone]
    rw [Active.untilDone_append hdone, hopen, List.map_append, List.takeWhile_append]
    split
    · next hlen =>
        have hall := (List.takeWhile_prefix fun e => !isClear e).eq_of_length hlen
        rw [published_append, hall]
        cases c with
        | done =>
            left
            simp [Active.untilDone, published]
        | work task =>
            cases task with
            | bgSave | bgFatal =>
                right
                simp [Active.untilDone, WorkerTask.event, published, isClear]
            | addSink | clearSinks =>
                left
                simp [Active.untilDone, WorkerTask.event, published, isClear]
    · exact .inl rfl

/-- Without fatal events the messages saved change by a save only. -/
theorem saved_step {a : Action} (hs : step σ a = some σ') (hpeaceful : peaceful σ a = true) :
    σ'.saved = σ.saved ∨ ∃ c msg, a.mover = some c ∧ (σ.clients c).pc = .save msg ∧
      σ'.saved = σ.saved ++ [msg] := by
  have hkeep (hsent : σ'._bg.sent = σ._bg.sent) : σ'.saved = σ.saved := by
    rw [State.saved, State.saved, hsent]
  have hadd {msg : LogMessage} (hsent : σ'._bg.sent = σ._bg.sent ++ [.work (.bgSave msg)]) :
      σ'.saved = σ.saved ∨ σ'.saved = σ.saved ++ [msg] := by
    have hsaved := saved_send hsent
    rwa [events_work] at hsaved
  have hquiet {c : Callback WorkerTask} (hsent : σ'._bg.sent = σ._bg.sent ++ [c])
      (hnil : published (events [c]) = []) : σ'.saved = σ.saved := by
    have hsaved := saved_send hsent
    rwa [hnil, List.append_nil, or_self] at hsaved
  cases (step_cases hs).2 with
  | @client c fresh _ _ hs =>
      cases hs with
      | @sendSave msg hpc =>
          exact (hadd (σ._bg.sent_send _)).imp_right fun hsaved => ⟨c, msg, rfl, hpc, hsaved⟩
      | sendAdd | sendClear | resetBg =>
          exact .inl (hquiet (σ._bg.sent_send _) (by simp [events, WorkerTask.event, published]))
      | _ => exact .inl (hkeep rfl)
  | worker _ hs =>
      left
      refine hkeep ?_
      cases hs with
      | exit hpc hexit => exact Active.sent_exit hexit
      | pop hpc hpop => exact Active.sent_pop hpop
      | bgSaveEnd | addSink | clearEnd | done => exact σ._bg.sent_ret
      | _ => rfl
  | sink _ hs =>
      left
      refine hkeep ?_
      cases hs <;> rfl
  | fatal | signal | raise | fault => simp [peaceful] at hpeaceful

/-- A save before the destructor begins counts. -/
theorem saved_save {Ok : State T R → Action → Prop} (h : (logWorker T R).ReachableBy Ok σ)
    (hbefore : σ.destroying = false) {c : ClientId} {msg : LogMessage}
    (hpc : (σ.clients c).pc = .save msg) {fresh : SinkId}
    (hs : step σ (.client c fresh) = some σ') : σ'.saved = σ.saved ++ [msg] := by
  obtain ⟨-, -, -, hdone, hnone, -⟩ := (shutdown h).before hbefore
  obtain ⟨hnew, -, hclear⟩ := untilDone_save hdone hnone hpc hs
  have hopen : ∀ e ∈ (Active.untilDone σ._bg.sent).map WorkerTask.event,
      (!isClear e) = true := by
    intro e he
    obtain ⟨task, htask, rfl⟩ := List.mem_map.mp he
    cases task with
    | clearSinks => exact absurd htask hclear
    | _ => rfl
  rw [State.saved, State.saved, hnew, List.map_append, List.takeWhile_append_of_pos hopen,
    published_append, List.takeWhile_eq_self_iff.mpr hopen]
  rfl

end

/-! ## Clients that save and destroy -/

/-- An operation that uses the worker and no sink. -/
def Op.plain : Op Unit Unit → Bool
  | .save _ | .destroy => true
  | _ => false

/-- The clients save messages and destroy the worker. -/
def Plain (σ : State Unit Unit) : Prop :=
  ∀ c, (σ.clients c).pc.usesSink = false ∧ (σ.clients c).program.all Op.plain = true

theorem Plain.clientStep {σ σ' : State Unit Unit} (h : Plain σ) {c : ClientId} {fresh : SinkId}
    (hs : ClientStep c fresh σ σ') : Plain σ' := by
  have hothers : ∀ c' ≠ c, (σ'.clients c').pc.usesSink = false ∧
      (σ'.clients c').program.all Op.plain = true := by
    intro c' hc
    rw [hs.clients_of_ne hc]
    exact h c'
  obtain ⟨hpc', hprogram'⟩ := h c
  intro c'
  by_cases hc : c' = c
  swap
  · exact hothers c' hc
  subst hc
  clear hothers
  cases hs with
  | make hpc hprogram | lock hpc hprogram | gone hpc hprogram | fatal hpc hprogram =>
      simp [hprogram, Op.plain] at hprogram'
  | save hpc hprogram | destroy hpc hprogram =>
      rw [hprogram] at hprogram'
      simpa [ClientPc.usesSink, Op.plain] using hprogram'
  | @releaseShared s role hpc | @join s role hpc =>
      cases role <;> simp_all [ClientPc.usesSink, State.afterRelease, State.destroySink]
  | @releaseLast s role hpc =>
      cases role <;> simp_all [ClientPc.usesSink]
  | readBg hpc | readNull hpc | sendAdd hpc | waitAdd hpc | async hpc =>
      simp [hpc, ClientPc.usesSink] at hpc'
  | destroyShared hpc => exact ⟨hpc', hprogram'⟩
  | _ hpc => exact ⟨by simp [ClientPc.usesSink], by simpa using hprogram'⟩

theorem Plain.step {σ σ' : State Unit Unit} (h : Plain σ) {a : Action} (hs : Step σ a σ')  :
    Plain σ' := by
  cases a with
  | client c fresh =>
      cases hs with
      | client _ hs => exact h.clientStep hs
  | _ =>
      intro c
      rw [hs.clients_eq (by simp [Action.mover])]
      exact h c

/-! ## A worker with default loggers -/

/-- The three sinks `e`, `w` and `i` have been added to a worker on which nothing has been
saved yet, and the clients are about to save and destroy. -/
structure SetUp (σ : State Unit Unit) (e w i : SinkId) : Prop where
  reachable : (logWorker Unit Unit).Reachable σ
  sinks : σ._sinks = [e, w, i]
  added : ∀ task ∈ workOf σ._bg.sent, ∃ s, task = .addSink s
  plain : Plain σ

/-- When a constructor of `FileSink` runs, and whether it can open its files. -/
structure Opening where
  now : Int
  opens : Bool
  opensFallback : Bool

/-- The file sinks of the three levels, made one after the other. The last argument of the
source takes no part. -/
def addDefaultLogger (env : Env) (logPrefix log_directory _default_id : String)
    (opening : SinkId → Opening) (e w i : SinkId) (σ : State Unit Unit) (disk : Disk) :
    Option FileLogger := do
  let made (level : LEVELS) (s : SinkId) (disk : Disk) : Option FileSink.State :=
    FileSink.create env logPrefix log_directory level "g3log" (opening s).now (opening s).opens
      (opening s).opensFallback disk
  let error ← made G3LOG_ERROR e disk
  let warning ← made G3LOG_WARNING w error.disk
  let info ← made G3LOG_INFO i warning.disk
  some
    { worker := σ
      sinks := fun s =>
        if s = e then some error.sink
        else if s = w then some warning.sink
        else if s = i then some info.sink
        else none
      disk := info.disk }

namespace SetUp
variable {σ : State Unit Unit} {e w i : SinkId}

/-- The real sinks are there, and have logged nothing. -/
theorem fresh (h : SetUp σ e w i) {s : SinkId} (hs : s ∈ σ._sinks) :
    (σ.sinks s).created = true ∧ (σ.sinks s)._real_sink ≠ none ∧ (σ.sinks s).logged = [] := by
  have ho := owned h.reachable
  have hcreated : (σ.sinks s).created = true := ho.registered.vector_created hs
  have hlife := ho.life s
  refine ⟨hcreated, ?_, ?_⟩
  · have hrunning : (σ.sinks s)._bg.finished ≠ true := by
      intro hfinished
      have hdone := hlife.sound.done_iff.mp (hlife.sound.done_of_finished hfinished)
      exact hlife.still_open (.inr (.inl hs)) ((σ.sinks s)._bg.executed_isPrefix.subset hdone)
    have hreal := (hlife.real hcreated).resolve_right hrunning
    intro hnone
    simp [hnone] at hreal
  · have hlogged := logged_prefix_enqueuedFor h.reachable s
    have hnil : σ.enqueuedFor s = [] := by
      refine published_subscribe fun event hevent => ?_
      have hmem := (List.takeWhile_sublist _).mem hevent
      obtain ⟨task, htask, rfl⟩ := List.mem_map.mp
        ((List.dropWhile_sublist _).mem (List.mem_of_mem_tail hmem))
      obtain ⟨s', rfl⟩ := h.added task ((Active.untilDone_isPrefix_workOf _).subset htask)
      exact ⟨s', rfl⟩
    rw [hnil] at hlogged
    exact List.prefix_nil.mp hlogged

/-- For each of the three sinks everything saved from now on is enqueued. -/
theorem enqueuedFor_eq_saved (h : SetUp σ e w i) {s : SinkId} (hs : s ∈ σ._sinks)
    {σ' : State Unit Unit} (hl : (logWorker Unit Unit).LeadsBy (fun _ _ => True) σ σ') :
    σ'.enqueuedFor s = σ'.saved := by
  have hsent : Active.untilDone σ._bg.sent <+: Active.untilDone σ'._bg.sent := by
    refine hl.related (r := fun σ σ' => Active.untilDone σ._bg.sent <+:
      Active.untilDone σ'._bg.sent) (fun _ => List.prefix_rfl)
      (fun _ _ _ => List.IsPrefix.trans) fun σ₁ a σ₂ _ hs => ?_
    obtain ⟨cs, hcs⟩ := (step_cases hs).2.sent_isPrefix
    rw [← hcs]
    exact Active.untilDone_prefix_append _ _
  obtain ⟨rest, hrest⟩ := hsent
  have ho := owned h.reachable
  have hmem : WorkerTask.addSink s ∈ Active.untilDone σ._bg.sent := by
    refine ho.worker.sound.work_isPrefix.subset ?_
    rw [Active.workOf_append]
    exact List.mem_append_left _ (Active.mem_workOf.mpr (ho.registered.vector s hs))
  rw [State.enqueuedFor, State.saved, ← hrest, List.map_append]
  refine publishedFor_append (fun event hevent => ?_) ?_ _
  · obtain ⟨task, htask, rfl⟩ := List.mem_map.mp hevent
    obtain ⟨s', rfl⟩ := h.added task ((Active.untilDone_isPrefix_workOf _).subset htask)
    exact ⟨s', rfl⟩
  · exact List.mem_map.mpr ⟨_, hmem, rfl⟩

end SetUp

/-- A file sink whose file no other constructor opens afterwards. -/
theorem opened_of_create {env : Env} {logPrefix log_directory logger_id : String}
    {level : LEVELS} {now : Int} {opens opensFallback : Bool} {disk disk' : Disk}
    {σ : FileSink.State}
    (hσ : FileSink.create env logPrefix log_directory level logger_id now opens opensFallback
      disk = some σ) (hopen : σ.sink._outptr.isSome)
    (hdisk : disk'.files σ.fileName = σ.disk.files σ.fileName) : Opened σ.sink disk' := by
  obtain ⟨hfunc, hheader, hfirst, -⟩ := FileSink.create_fields hσ
  obtain ⟨houtptr, hfiles⟩ := FileSink.create_files hσ hopen
  refine ⟨hfunc, hheader, hfirst, houtptr, ?_⟩
  have hown : disk'.files σ.fileName = some [] := by rw [hdisk, hfiles, Function.update_self]
  exact hown

section
variable {env : Env} {logPrefix log_directory default_id : String}
  {opening : SinkId → Opening} {e w i : SinkId} {σ₀ : State Unit Unit} {disk : Disk}
  {L₀ : FileLogger}

/-- The three file sinks of `addDefaultLogger`. -/
theorem addDefaultLogger_eq_some
    (h : addDefaultLogger env logPrefix log_directory default_id opening e w i σ₀ disk =
      some L₀) :
    ∃ error warning info : FileSink.State,
      (∃ now opens opensFallback, FileSink.create env logPrefix log_directory G3LOG_ERROR "g3log"
        now opens opensFallback disk = some error) ∧
      (∃ now opens opensFallback, FileSink.create env logPrefix log_directory G3LOG_WARNING
        "g3log" now opens opensFallback error.disk = some warning) ∧
      (∃ now opens opensFallback, FileSink.create env logPrefix log_directory G3LOG_INFO "g3log"
        now opens opensFallback warning.disk = some info) ∧
      L₀.worker = σ₀ ∧ L₀.disk = info.disk ∧
      L₀.sinks = fun s =>
        if s = e then some error.sink
        else if s = w then some warning.sink
        else if s = i then some info.sink
        else none := by
  simp only [addDefaultLogger, Option.bind_eq_bind, Option.bind_eq_some_iff,
    Option.some.injEq] at h
  obtain ⟨error, herror, warning, hwarning, info, hinfo, rfl⟩ := h
  exact ⟨error, warning, info, ⟨_, _, _, herror⟩, ⟨_, _, _, hwarning⟩, ⟨_, _, _, hinfo⟩, rfl, rfl,
    rfl⟩

/-- Whose file sink it is, and of what level. -/
theorem levels_of_addDefaultLogger (hset : SetUp σ₀ e w i)
    (h : addDefaultLogger env logPrefix log_directory default_id opening e w i σ₀ disk =
      some L₀) {s : SinkId} {level : LEVELS}
    (hs : (s, level) ∈ [(e, G3LOG_ERROR), (w, G3LOG_WARNING), (i, G3LOG_INFO)]) :
    s ∈ σ₀._sinks ∧ ∃ k, L₀.sinks s = some k ∧ k.min_loglevel_ = level := by
  obtain ⟨error, warning, info, ⟨_, _, _, herror⟩, ⟨_, _, _, hwarning⟩, ⟨_, _, _, hinfo⟩, -, -,
    hsinks⟩ := addDefaultLogger_eq_some h
  have hnodup := (owned hset.reachable).registered.nodup
  rw [hset.sinks] at hnodup ⊢
  simp only [List.nodup_cons, List.mem_cons, List.not_mem_nil, or_false, not_or] at hnodup
  simp only [List.mem_cons, List.not_mem_nil, or_false, Prod.mk.injEq] at hs
  rw [hsinks]
  rcases hs with ⟨rfl, rfl⟩ | ⟨rfl, rfl⟩ | ⟨rfl, rfl⟩
  · exact ⟨by simp, error.sink, by simp, (FileSink.create_fields herror).2.2.2.1⟩
  · exact ⟨by simp, warning.sink, by simp [Ne.symm hnodup.1.1],
      (FileSink.create_fields hwarning).2.2.2.1⟩
  · exact ⟨by simp, info.sink, by simp [Ne.symm hnodup.1.2, Ne.symm hnodup.2.1],
      (FileSink.create_fields hinfo).2.2.2.1⟩

/-- With their files open and of three names, the file sinks start apart. -/
theorem SetUp.separate (hset : SetUp σ₀ e w i)
    (h : addDefaultLogger env logPrefix log_directory default_id opening e w i σ₀ disk =
      some L₀)
    (hopen : ∀ s ∈ [e, w, i], (L₀.sinks s).any (·._outptr.isSome) = true)
    (hnames : ([e, w, i].map fun s => (L₀.sinks s).map (·._log_file_with_path)).Nodup) :
    Separate L₀ := by
  obtain ⟨error, warning, info, ⟨_, _, _, herror⟩, ⟨_, _, _, hwarning⟩, ⟨_, _, _, hinfo⟩, hworker,
    hdisk, hsinks⟩ := addDefaultLogger_eq_some h
  have hnodup := (owned hset.reachable).registered.nodup
  rw [hset.sinks] at hnodup
  simp only [List.nodup_cons, List.mem_cons, List.not_mem_nil, or_false, not_or] at hnodup
  have he : L₀.sinks e = some error.sink := by simp [hsinks]
  have hw : L₀.sinks w = some warning.sink := by simp [hsinks, Ne.symm hnodup.1.1]
  have hi : L₀.sinks i = some info.sink := by
    simp [hsinks, Ne.symm hnodup.1.2, Ne.symm hnodup.2.1]
  have hthree : ∀ s k, L₀.sinks s = some k →
      s = e ∧ k = error.sink ∨ s = w ∧ k = warning.sink ∨ s = i ∧ k = info.sink := by
    intro s k hk
    rw [hsinks] at hk
    dsimp only at hk
    split_ifs at hk with hs hs' hs''
    · exact .inl ⟨hs, (Option.some.inj hk).symm⟩
    · exact .inr (.inl ⟨hs', (Option.some.inj hk).symm⟩)
    · exact .inr (.inr ⟨hs'', (Option.some.inj hk).symm⟩)
  have herroropen : error.sink._outptr.isSome := by simpa [he] using hopen e (by simp)
  have hwarningopen : warning.sink._outptr.isSome := by simpa [hw] using hopen w (by simp)
  have hinfoopen : info.sink._outptr.isSome := by simpa [hi] using hopen i (by simp)
  simp only [List.map_cons, List.map_nil, he, hw, hi, Option.map_some, List.nodup_cons,
    List.mem_cons, List.not_mem_nil, or_false, not_or, Option.some.injEq] at hnames
  obtain ⟨⟨hew, hei⟩, hwi, -⟩ := hnames
  -- What the later constructors leave of the earlier files.
  have hwarningfiles := (FileSink.create_files hwarning hwarningopen).2
  have hinfofiles := (FileSink.create_files hinfo hinfoopen).2
  refine ⟨fun s k hk => ?_, fun s k hk => ?_, fun s s' k k' hs hk hk' => ?_⟩
  · rw [hdisk]
    rcases hthree s k hk with ⟨rfl, rfl⟩ | ⟨rfl, rfl⟩ | ⟨rfl, rfl⟩
    · have hei' : error.fileName ≠ info.fileName := hei
      have hew' : error.fileName ≠ warning.fileName := hew
      refine opened_of_create herror herroropen ?_
      rw [hinfofiles, Function.update_of_ne hei', hwarningfiles, Function.update_of_ne hew']
    · have hwi' : warning.fileName ≠ info.fileName := hwi
      refine opened_of_create hwarning hwarningopen ?_
      rw [hinfofiles, Function.update_of_ne hwi']
    · exact opened_of_create hinfo hinfoopen rfl
  · rw [hworker]
    refine hset.fresh ?_
    rw [hset.sinks]
    rcases hthree s k hk with ⟨rfl, -⟩ | ⟨rfl, -⟩ | ⟨rfl, -⟩ <;> simp
  · rcases hthree s k hk with ⟨rfl, rfl⟩ | ⟨rfl, rfl⟩ | ⟨rfl, rfl⟩ <;>
      rcases hthree s' k' hk' with ⟨rfl, rfl⟩ | ⟨rfl, rfl⟩ | ⟨rfl, rfl⟩
    · exact absurd rfl hs
    · exact Ne.symm hew
    · exact Ne.symm hei
    · exact hew
    · exact absurd rfl hs
    · exact Ne.symm hwi
    · exact hei
    · exact hwi
    · exact absurd rfl hs

/-! ## Whole runs -/

/-- What holds along a run of a worker with default loggers. -/
structure Run (env : Env) (L₀ L : FileLogger) : Prop where
  leads : (logWorker Unit Unit).LeadsBy (fun _ _ => True) L₀.worker L.worker
  plain : Plain L.worker
  logs : AllLog env L₀ L

theorem SetUp.run (hset : SetUp L₀.worker e w i) (h₀ : Separate L₀)
    {Ok : FileLogger → Action × Int → Prop} {L : FileLogger}
    (hL : (fileLogger env L₀).ReachableBy Ok L) : Run env L₀ L := by
  refine hL.invariant ?_ fun L a L' _ _ hrun hs => ?_
  · rintro _ rfl
    exact ⟨.refl, hset.plain, h₀.allLog env⟩
  · obtain ⟨worker, hworker, hperform⟩ := Option.bind_eq_some_iff.mp hs
    have ho := owned (hset.reachable.leads hrun.leads)
    obtain ⟨L₁, hL₁, rfl, hlogs⟩ := hrun.logs.step h₀ ho hworker
    obtain rfl : L₁ = L' := Option.some.inj (hL₁.symm.trans hs)
    exact ⟨.step hrun.leads trivial hworker, hrun.plain.step (step_cases hworker).2, hlogs⟩

/-- What the default loggers of a worker have come to in a state of a run. -/
structure Nested (env : Env) (L₀ L : FileLogger) (e w i : SinkId) : Prop where
  /-- What is saved changes by the calls of `save` only, -/
  saved_step : ∀ a L', peaceful L.worker a.1 = true → FileLogger.step env L a = some L' →
    L'.worker.saved = L.worker.saved ∨
      ∃ c msg, a.1.mover = some c ∧ (L.worker.clients c).pc = .save msg ∧
        L'.worker.saved = L.worker.saved ++ [msg]
  /-- and by each of them before the destructor begins. -/
  saved_save : ∀ c msg fresh now L', L.worker.destroying = false →
    (L.worker.clients c).pc = .save msg →
      FileLogger.step env L (.client c fresh, now) = some L' →
        L'.worker.saved = L.worker.saved ++ [msg]
  files : L.worker.destroyed = true → ∀ s level,
    (s, level) ∈ [(e, G3LOG_ERROR), (w, G3LOG_WARNING), (i, G3LOG_INFO)] →
      ∃ k, L₀.sinks s = some k ∧ Written env level k._log_file_with_path L.worker.saved L.disk
  error_sublist :
    (entries env G3LOG_ERROR L.worker.saved).Sublist (entries env G3LOG_WARNING L.worker.saved)
  warning_sublist :
    (entries env G3LOG_WARNING L.worker.saved).Sublist (entries env G3LOG_INFO L.worker.saved)

/-- A worker with the default loggers, on which clients save messages until it is
destroyed. After that the files of the three levels contain a header, if anything was
saved, the texts of the messages at or above the level in the order they were saved, and
the last line; so each level has a part of the entries of the next one. -/
theorem default_loggers_nested (env : Env) (logPrefix log_directory default_id : String)
    (opening : SinkId → Opening) (e w i : SinkId) (σ₀ : State Unit Unit) (disk : Disk)
    (L₀ : FileLogger) (hset : SetUp σ₀ e w i)
    (hL₀ : addDefaultLogger env logPrefix log_directory default_id opening e w i σ₀ disk =
      some L₀)
    (hopen : ∀ s ∈ [e, w, i], (L₀.sinks s).any (·._outptr.isSome) = true)
    (hnames : ([e, w, i].map fun s => (L₀.sinks s).map (·._log_file_with_path)).Nodup)
    (L : FileLogger)
    (hL : (fileLogger env L₀).ReachableBy (fun L a => peaceful L.worker a.1 = true) L) :
    Nested env L₀ L e w i := by
  have hworker : L₀.worker = σ₀ := by
    obtain ⟨_, _, _, -, -, -, hworker, -, -⟩ := addDefaultLogger_eq_some hL₀
    exact hworker
  have hseparate := hset.separate hL₀ hopen hnames
  have hrun : Run env L₀ L := by
    rw [← hworker] at hset
    exact hset.run hseparate hL
  have hleads := hrun.leads
  rw [hworker] at hleads
  have hreach := hset.reachable.leads hleads
  have hstep {a : Action × Int} {L' : FileLogger} (hs : FileLogger.step env L a = some L') :
      G3log.step L.worker a.1 = some L'.worker := by
    obtain ⟨worker, hw, hperform⟩ := Option.bind_eq_some_iff.mp hs
    obtain ⟨L₁, -, rfl⟩ := Option.map_eq_some_iff.mp hperform
    exact hw
  refine ⟨fun a L' hpeaceful hs => saved_step (hstep hs) hpeaceful,
    fun c msg fresh now L' hbefore hpc hs => saved_save hreach hbefore hpc (hstep hs),
    fun hdestroyed s level hs => ?_, entries_sublist env (by decide) _,
    entries_sublist env (by decide) _⟩
  obtain ⟨hsink, k, hk, hlevel⟩ := levels_of_addDefaultLogger hset hL₀ hs
  have hquiet := fun c => (hrun.plain c).1
  obtain ⟨hstrong, hjoining⟩ := unreferred_of_destroyed hreach hdestroyed hquiet s
  have hgone := real_sink_eq_none hreach hstrong hjoining
  have hlogged : (L.worker.sinks s).logged = L.worker.saved := by
    rw [drained_of_destroyed hreach hdestroyed hquiet s, hset.enqueuedFor_eq_saved hsink hleads]
  refine ⟨k, hk, ?_⟩
  rw [← hlogged, ← hlevel]
  rcases (hrun.logs.logs s k hk).file with ⟨_, -, hreal, -⟩ | ⟨-, -, hwritten⟩
  · exact absurd hgone hreal
  · exact hwritten

end

/-! ## Two messages -/

/-- A message of a level between *WARNING* and *ERROR*. -/
def alarm : LogMessage := { greeting with _level := ⟨600, "ALARM"⟩, _message := "smoke" }

/-- One client adds the default loggers, saves two messages and destroys the worker. -/
def loggerCrew : ClientId → List (Op Unit Unit)
  | 0 =>
      [.addSink () fun _ real_sink => real_sink, .addSink () fun _ real_sink => real_sink,
        .addSink () fun _ real_sink => real_sink, .save greeting, .save alarm, .destroy]
  | _ => []

def addOneRun (s : SinkId) : List Action :=
  [.client 0 s, .client 0 s, .client 0 s, .worker, .worker, .client 0 s, .client 0 s]

def saveOneRun : List Action :=
  [.client 0 0, .client 0 0, .worker, .worker, .worker, .worker, .worker]

def destroyOneRun (s : SinkId) : List Action := .worker :: List.replicate 7 (.sink s) ++ [.worker]

def destroyRun : List Action :=
  [.client 0 0, .client 0 0, .worker] ++ destroyOneRun 0 ++ destroyOneRun 1 ++ destroyOneRun 2 ++
    [.worker, .client 0 0, .client 0 0, .worker, .worker, .worker, .client 0 0, .client 0 0]

theorem exists_setUp : ∃ σ, SetUp σ 0 1 2 ∧
    (logWorker Unit Unit).runBy (fun _ _ => true) (init loggerCrew true)
      (addOneRun 0 ++ addOneRun 1 ++ addOneRun 2) = some σ := by
  have hrun : ((logWorker Unit Unit).runBy (fun _ _ => true) (init loggerCrew true)
      (addOneRun 0 ++ addOneRun 1 ++ addOneRun 2)).any (fun σ =>
        decide (σ._sinks = [0, 1, 2]) &&
          decide (workOf σ._bg.sent = [.addSink 0, .addSink 1, .addSink 2]) &&
          (List.range 1).all fun c =>
            !(σ.clients c).pc.usesSink && (σ.clients c).program.all Op.plain) = true := by
    decide +kernel
  obtain ⟨σ, hσ, hp⟩ := (Option.any_eq_true _ _).mp hrun
  simp only [Bool.and_eq_true, decide_eq_true_eq] at hp
  obtain ⟨⟨hsinks, hadded⟩, hend⟩ := hp
  have hstart : (logWorker Unit Unit).Start (init loggerCrew true) := ⟨loggerCrew, true, rfl⟩
  refine ⟨σ, ⟨?_, hsinks, fun task htask => ?_, fun c => ?_⟩, hσ⟩
  · exact (System.reachableBy_of_runBy (.start hstart) hσ).reachable
  · rw [hadded] at htask
    simp only [List.mem_cons, List.not_mem_nil, or_false] at htask
    rcases htask with rfl | rfl | rfl <;> exact ⟨_, rfl⟩
  · have hplain := forall_clients_of_runBy (n := 1)
      (p := fun k => !k.pc.usesSink && k.program.all Op.plain) hσ (by decide)
      (fun c hc => ?_) hend c
    · simpa using hplain
    · obtain ⟨c, rfl⟩ : ∃ n, c = n + 1 := ⟨c - 1, by omega⟩
      rfl

def openAtEpoch : SinkId → Opening := fun _ => ⟨0, true, true⟩

/-- Both messages reach the file of *INFO*, one that of *WARNING* and none that of *ERROR*. -/
theorem default_loggers_nested_alarm :
    ∃ L₀ L : FileLogger, L.worker.destroyed = true ∧ L.worker.saved = [greeting, alarm] ∧
      (entries FileSink.epoch G3LOG_ERROR L.worker.saved).length = 0 ∧
      (entries FileSink.epoch G3LOG_WARNING L.worker.saved).length = 1 ∧
      (entries FileSink.epoch G3LOG_INFO L.worker.saved).length = 2 ∧
      Nested FileSink.epoch L₀ L 0 1 2 := by
  obtain ⟨σ₀, hset, hσ₀⟩ := exists_setUp
  let disk := FileSink.diskOf (fun _ => none) fun _ => none
  have hrun : ((logWorker Unit Unit).runBy (fun _ _ => true) (init loggerCrew true)
      (addOneRun 0 ++ addOneRun 1 ++ addOneRun 2)).any (fun σ =>
        (addDefaultLogger FileSink.epoch "log" "/tmp/" "g3log" openAtEpoch 0 1 2 σ disk).any
          fun L₀ =>
            decide (∀ s ∈ [0, 1, 2], (L₀.sinks s).any (·._outptr.isSome) = true) &&
            decide ([0, 1, 2].map fun s => (L₀.sinks s).map (·._log_file_with_path)).Nodup &&
            ((fileLogger FileSink.epoch L₀).runBy (fun L a => peaceful L.worker a.1) L₀
              ((saveOneRun ++ saveOneRun ++ destroyRun).map (·, 0))).any fun L =>
                L.worker.destroyed && decide (L.worker.saved = [greeting, alarm])) = true := by
    decide +kernel
  rw [hσ₀, Option.any_some] at hrun
  obtain ⟨L₀, hL₀, hp⟩ := (Option.any_eq_true _ _).mp hrun
  simp only [Bool.and_eq_true] at hp
  obtain ⟨⟨hopen, hnames⟩, hfinal⟩ := hp
  obtain ⟨L, hL, hp⟩ := (Option.any_eq_true _ _).mp hfinal
  simp only [Bool.and_eq_true, decide_eq_true_eq] at hp
  have hreach := System.reachableBy_of_runBy
    (.start (rfl : (fileLogger FileSink.epoch L₀).Start L₀)) hL
  have hnested := default_loggers_nested FileSink.epoch "log" "/tmp/" "g3log" openAtEpoch 0 1 2 σ₀
    disk L₀ hset hL₀ (of_decide_eq_true hopen) (of_decide_eq_true hnames) L hreach
  refine ⟨L₀, L, hp.1, hp.2, ?_, ?_, ?_, hnested⟩
  all_goals
    rw [hp.2]
    rfl

end G3log
