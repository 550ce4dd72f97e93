import G3log.FileSink

/-!
# Copies of a log message

Messages travel by copies, moves and assignments. The two constructors list the ten fields
of a `LogMessage`, and assignment goes through a `swap` that lists eight of them: the path
of the file and the formatter stay with the message that is assigned to. The formatter is a
field as well, which `toString` overwrites with the one it is given, or with the default.

## Main definitions

* `Moveable`, `MoveOnCopy` -- how a type is moved, and the wrapper that moves on a copy.
* `LogMessage.copyOf`, `moveOf`, `swap`, `assign` -- the code.
* `Transfer`, `SameAccessors` -- a chain of copies, and messages that cannot be told apart.
* `FormatOp`, `UsesLastSet` -- calls around the formatter, and what they are meant to give.
-/

namespace G3log

/-! ## Moving -/

/-- How the values of a type are moved. A constructor gives the new value and what is left of
the old one, an assignment the two values afterwards. -/
structure Moveable (α : Type) where
  construct : α → α × α
  assign : α → α → α × α

/-- A wrapper that moves what it holds when it is copied. -/
structure MoveOnCopy (α : Type) where
  _move_only : α

namespace MoveOnCopy
variable {α : Type} (M : Moveable α)

/-- Both constructors: the new wrapper and the old one. -/
def construct (t : MoveOnCopy α) : MoveOnCopy α × MoveOnCopy α :=
  (⟨(M.construct t._move_only).1⟩, ⟨(M.construct t._move_only).2⟩)

/-- Both assignments: the wrapper that is assigned to and the other one. -/
def assign (self other : MoveOnCopy α) : MoveOnCopy α × MoveOnCopy α :=
  (⟨(M.assign self._move_only other._move_only).1⟩,
    ⟨(M.assign self._move_only other._move_only).2⟩)

end MoveOnCopy

namespace LogMessage

def file (m : LogMessage) : String := m._file
def file_path (m : LogMessage) : String := m._file_path
def function (m : LogMessage) : String := m._function
def message (m : LogMessage) : String := m._message
def expression (m : LogMessage) : String := m._expression

/-- The copy constructor. -/
def copyOf (other : LogMessage) : LogMessage where
  _logDetailsToStringFunc := other._logDetailsToStringFunc
  _timestamp := other._timestamp
  _call_thread_id := other._call_thread_id
  _file := other._file
  _file_path := other._file_path
  _line := other._line
  _function := other._function
  _level := other._level
  _expression := other._expression
  _message := other._message

/-- The move constructor, with what is left of the other message. A string that was moved from
has some value, which `left` gives. -/
def moveOf (left : String → String) (other : LogMessage) : LogMessage × LogMessage :=
  ({ _logDetailsToStringFunc := other._logDetailsToStringFunc
     _timestamp := other._timestamp
     _call_thread_id := other._call_thread_id
     _file := other._file
     _file_path := other._file_path
     _line := other._line
     _function := other._function
     _level := other._level
     _expression := other._expression
     _message := other._message },
    { other with
      _file := left other._file
      _file_path := left other._file_path
      _function := left other._function
      _expression := left other._expression
      _message := left other._message })

/-- The first message and the second one, after the exchange. -/
def swap (first second : LogMessage) : LogMessage × LogMessage :=
  ({ first with
     _timestamp := second._timestamp
     _call_thread_id := second._call_thread_id
     _file := second._file
     _line := second._line
     _function := second._function
     _level := second._level
     _expression := second._expression
     _message := second._message },
    { second with
      _timestamp := first._timestamp
      _call_thread_id := first._call_thread_id
      _file := first._file
      _line := first._line
      _function := first._function
      _level := first._level
      _expression := first._expression
      _message := first._message })

/-- `operator=`, which takes its argument by value. -/
def assign (self other : LogMessage) : LogMessage := (swap self other).1

/-- Assignment from an rvalue: the argument is made by the move constructor. -/
def moveable (left : String → String) : Moveable LogMessage where
  construct := moveOf left
  assign self other := (self.assign (moveOf left other).1, (moveOf left other).2)

end LogMessage

/-! ## Chains of copies -/

/-- A way to pass a message on. An assignment goes to a message that has contents. -/
inductive Transfer
  | copyConstruct
  | moveConstruct
  | copyAssign (self : LogMessage)
  | moveAssign (self : LogMessage)
  /-- The same for a `LogMessageMover`, which has one way to construct and one to assign. -/
  | moverConstruct
  | moverAssign (self : LogMessage)
  deriving DecidableEq

namespace Transfer
variable (left : String → String)

/-- The message that is passed on. -/
def apply (b : LogMessage) : Transfer → LogMessage
  | .copyConstruct => b.copyOf
  | .moveConstruct => (b.moveOf left).1
  | .copyAssign self => self.assign b.copyOf
  | .moveAssign self => self.assign (b.moveOf left).1
  | .moverConstruct => (MoveOnCopy.construct (LogMessage.moveable left) ⟨b⟩).1._move_only
  | .moverAssign self => (MoveOnCopy.assign (LogMessage.moveable left) ⟨self⟩ ⟨b⟩).1._move_only

/-- The message that is assigned to. -/
def target : Transfer → Option LogMessage
  | .copyAssign self | .moveAssign self | .moverAssign self => some self
  | .copyConstruct | .moveConstruct | .moverConstruct => none

/-- What becomes of a message along a chain. -/
def along (b : LogMessage) (chain : List Transfer) : LogMessage := chain.foldl (apply left) b

/-- The message that was assigned to last. -/
def lastTarget (chain : List Transfer) : Option LogMessage :=
  chain.reverse.findSome? target

theorem lastTarget_concat (chain : List Transfer) (t : Transfer) :
    lastTarget (chain ++ [t]) = t.target.or (lastTarget chain) := by
  rw [lastTarget, List.reverse_append, List.reverse_singleton, List.singleton_append,
    List.findSome?_cons]
  cases t.target <;> rfl

/-- A message that agrees with another one but for the path and the formatter. -/
def Carries (b m : LogMessage) : Prop :=
  m = { b with
    _file_path := m._file_path
    _logDetailsToStringFunc := m._logDetailsToStringFunc }

theorem carries_refl (b : LogMessage) : Carries b b := rfl

theorem Carries.apply {b m : LogMessage} (h : Carries b m) (t : Transfer) :
    Carries b (t.apply left m) := by
  rw [Carries] at h
  cases t with
  | copyConstruct | moveConstruct | moverConstruct => exact h
  | copyAssign self | moveAssign self | moverAssign self =>
      rw [h]
      rfl

/-- The path is the one that the message assigned to had before. -/
theorem file_path_apply (m : LogMessage) (t : Transfer) :
    (t.apply left m)._file_path = (t.target.getD m)._file_path := by
  cases t <;> rfl

theorem carries_along (b : LogMessage) (chain : List Transfer) :
    Carries b (along left b chain) := by
  induction chain using List.reverseRecOn with
  | nil => exact carries_refl b
  | append_singleton chain t ih =>
      rw [along, List.foldl_append]
      exact ih.apply left t

theorem file_path_along (b : LogMessage) (chain : List Transfer) :
    (along left b chain)._file_path = ((lastTarget chain).getD b)._file_path := by
  induction chain using List.reverseRecOn with
  | nil => rfl
  | append_singleton chain t ih =>
      rw [along, List.foldl_append]
      change (t.apply left (along left b chain))._file_path = _
      rw [file_path_apply]
      cases htarget : t.target with
      | none =>
          rw [lastTarget_concat, htarget]
          exact ih
      | some self =>
          rw [lastTarget_concat, htarget]
          rfl

end Transfer

/-- Two messages that every accessor agrees on. -/
structure SameAccessors (env : Env) (m m' : LogMessage) : Prop where
  file : m.file = m'.file
  file_path : m.file_path = m'.file_path
  line : m.line = m'.line
  function : m.function = m'.function
  level : m.level = m'.level
  level_value : m.level_value = m'.level_value
  timestamp : ∀ time_look, m.timestamp env time_look = m'.timestamp env time_look
  message : m.message = m'.message
  expression : m.expression = m'.expression
  threadID : m.threadID env = m'.threadID env
  toString : ∀ func, (m.toString env func).1 = (m'.toString env func).1

/-- The formatter of a message does not show, since `toString` is given one. -/
theorem sameAccessors_override (env : Env) (func : LogDetailsFunc) (m : LogMessage) :
    SameAccessors env (m.overrideLogDetailsFunc func) m := by
  constructor <;> intros <;> rfl

/-- A message has come through a chain whole, if and only if the message that was assigned to
last, if there is one, came from the same file. -/
theorem sameAccessors_along_iff (env : Env) (left : String → String) (b : LogMessage)
    (chain : List Transfer) :
    SameAccessors env (Transfer.along left b chain) b.copyOf ↔
      ∀ self, Transfer.lastTarget chain = some self → self._file_path = b._file_path := by
  have hpath := Transfer.file_path_along left b chain
  have hcarries := Transfer.carries_along left b chain
  constructor
  · intro h self hself
    rw [hself] at hpath
    exact hpath.symm.trans h.file_path
  · intro h
    have hsame : (Transfer.along left b chain)._file_path = b._file_path := by
      rw [hpath]
      cases hlast : Transfer.lastTarget chain with
      | none => rfl
      | some self => exact h self hlast
    rw [Transfer.Carries, hsame] at hcarries
    rw [hcarries]
    exact sameAccessors_override env _ b

/-- A message of another file, assigned to. -/
theorem assignment_keeps_path :
    let a := { greeting with _file_path := "sub/main.cpp" }
    (a.assign greeting.copyOf).file_path = "sub/main.cpp" ∧
      (Transfer.along id greeting [.moverAssign a]).file_path = "sub/main.cpp" ∧
      ¬ ∀ (env : Env) (left : String → String) (b : LogMessage) (chain : List Transfer),
        SameAccessors env (Transfer.along left b chain) b.copyOf := by
  intro a
  refine ⟨rfl, rfl, ?_⟩
  intro h
  have hpath := (h FileSink.epoch id greeting [.copyAssign a]).file_path
  revert hpath
  decide

/-! ## The formatter -/

namespace LogMessage

/-- The level of a message whose text begins with details. -/
def Detailed (m : LogMessage) : Prop :=
  m.wasFatal = false ∨
    FATAL_SIGNAL.value ≠ m._level.value ∧ FATAL_EXCEPTION.value ≠ m._level.value

instance (m : LogMessage) : Decidable m.Detailed := inferInstanceAs (Decidable (_ ∨ _))

/-- What a formatter makes of a message that holds it. -/
def detailsBy (env : Env) (func : LogDetailsFunc) (m : LogMessage) : String :=
  (m.overrideLogDetailsFunc func).logDetails env

/-- The text of a message behind its details. -/
def afterDetails (m : LogMessage) : String :=
  if m.wasFatal = false then m._message ++ "\n"
  else if G3LOG_FATAL.value = m._level.value then
    "\n\t*******\t " ++ "EXIT trigger caused by LOG(FATAL) entry: " ++ "\n\t\"" ++
      m._message ++ "\""
  else if CONTRACT.value = m._level.value then
    "\n\t*******\t " ++ "EXIT trigger caused by broken Contract:" ++ " CHECK(" ++
      m._expression ++ ")\n\t\"" ++ m._message ++ "\""
  else
    "\t*******" ++ "UNKNOWN or Custom made Log Message Type" ++ "\n\t" ++ m._message ++ "\n"

theorem formatted_eq {env : Env} {m : LogMessage} (h : m.Detailed) :
    m.formatted env = m.logDetails env ++ m.afterDetails := by
  by_cases hfatal : m.wasFatal = false
  · simp [formatted, afterDetails, hfatal, normalToString, String.append_assoc]
  · have hlevel := h.resolve_left hfatal
    by_cases hlog : G3LOG_FATAL.value = m._level.value
    · simp [formatted, afterDetails, hfatal, hlevel.1, hlevel.2, hlog, fatalLogToString,
        String.append_assoc]
    · by_cases hcheck : CONTRACT.value = m._level.value
      · simp [formatted, afterDetails, hfatal, hlevel.1, hlevel.2, hlog, hcheck,
          fatalCheckToString, String.append_assoc]
      · simp [formatted, afterDetails, hfatal, hlevel.1, hlevel.2, hlog, hcheck,
          String.append_assoc]

/-- `toString()` formats with the default, whatever the message holds. -/
theorem toString_default {env : Env} {m : LogMessage} (h : m.Detailed) :
    (m.toString env).1 =
      m.detailsBy env .DefaultLogDetailsToString ++ m.afterDetails := by
  have hlevel : (m.overrideLogDetailsFunc .DefaultLogDetailsToString).Detailed := h
  exact formatted_eq hlevel

end LogMessage

/-- A call around the formatter, or a copy to go on with. -/
inductive FormatOp
  | overrideLogDetailsFunc (func : LogDetailsFunc)
  | copyConstruct
  | moveConstruct
  | toString
  deriving DecidableEq

namespace FormatOp
variable (env : Env) (left : String → String)

/-- The texts that the calls of `toString()` return. -/
def outputs : LogMessage → List FormatOp → List String
  | _, [] => []
  | m, .overrideLogDetailsFunc func :: ops => outputs (m.overrideLogDetailsFunc func) ops
  | m, .copyConstruct :: ops => outputs m.copyOf ops
  | m, .moveConstruct :: ops => outputs (m.moveOf left).1 ops
  | m, .toString :: ops => (m.toString env).1 :: outputs (m.toString env).2 ops

/-- The formatter that was set last, at each call of `toString()`. -/
def lastSet : LogDetailsFunc → List FormatOp → List LogDetailsFunc
  | _, [] => []
  | _, .overrideLogDetailsFunc func :: ops => lastSet func ops
  | func, .copyConstruct :: ops => lastSet func ops
  | func, .moveConstruct :: ops => lastSet func ops
  | func, .toString :: ops => func :: lastSet func ops

/-- Every text begins with the details by the formatter that was set last. -/
def UsesLastSet (m : LogMessage) (ops : List FormatOp) : Prop :=
  List.Forall₂ (fun func text => (m.detailsBy env func).toList <+: text.toList)
    (lastSet .DefaultLogDetailsToString ops) (outputs env left m ops)

/-- The details by a formatter begin the text that has the default ones. -/
def Leads (m : LogMessage) (func : LogDetailsFunc) : Prop :=
  (m.detailsBy env func).toList <+:
    (m.detailsBy env .DefaultLogDetailsToString ++ m.afterDetails).toList

theorem leads_default (m : LogMessage) : Leads env m .DefaultLogDetailsToString := by
  rw [Leads, String.toList_append]
  exact List.prefix_append _ _

/-- The full format has a tab where the default one has a blank or the rest of the time. -/
theorem not_leads_full {m : LogMessage} (htab : '\t' ∉ (m.timestamp env).toList)
    (hne : (m.timestamp env).toList ≠ []) : ¬ Leads env m .FullLogDetailsToString := by
  intro h
  have hfull : (m.timestamp env).toList ++ ['\t'] <+:
      (m.detailsBy env .FullLogDetailsToString).toList := by
    simp [LogMessage.detailsBy, LogMessage.logDetails, LogMessage.overrideLogDetailsFunc,
      LogMessage.FullLogDetailsToString, LogMessage.timestamp]
  have hdefault : m._level.text.toList.take 1 ++ ((m.timestamp env).toList ++ [' ']) <+:
      (m.detailsBy env .DefaultLogDetailsToString ++ m.afterDetails).toList := by
    simp [LogMessage.detailsBy, LogMessage.logDetails, LogMessage.overrideLogDetailsFunc,
      LogMessage.DefaultLogDetailsToString, LogMessage.timestamp, LogMessage.shortLevel]
  have htake := List.prefix_of_prefix_length_le (hfull.trans h) hdefault (by simp)
  cases htext : m._level.text.toList with
  | nil =>
      simp [htext] at htake
  | cons c rest =>
      -- the tab would be the last character of the time
      have heq : (m.timestamp env).toList ++ ['\t'] = c :: (m.timestamp env).toList := by
        have hshort : (m.timestamp env).toList ++ ['\t'] <+:
            c :: (m.timestamp env).toList ++ [' '] := by simpa [htext] using htake
        have hlong : c :: (m.timestamp env).toList <+:
            c :: (m.timestamp env).toList ++ [' '] := List.prefix_append _ _
        exact (List.prefix_of_prefix_length_le hshort hlong (by simp)).eq_of_length (by simp)
      have hlast := congrArg List.getLast? heq
      rw [List.getLast?_concat, List.getLast?_cons_of_ne_nil hne] at hlast
      exact htab (List.mem_of_getLast? hlast.symm)

/-- The formatter aside, the calls leave a message as it is. -/
theorem outputs_override (m : LogMessage) (func : LogDetailsFunc) (ops : List FormatOp) :
    outputs env left (m.overrideLogDetailsFunc func) ops = outputs env left m ops := by
  induction ops generalizing m func with
  | nil => rfl
  | cons op ops ih =>
      cases op with
      | overrideLogDetailsFunc func' => rfl
      | copyConstruct => exact ih m func
      | moveConstruct => exact ih m func
      | toString => rfl

theorem forall₂_outputs_iff {m : LogMessage} (h : m.Detailed) (func : LogDetailsFunc)
    (ops : List FormatOp) :
    List.Forall₂ (fun func text => (m.detailsBy env func).toList <+: text.toList)
        (lastSet func ops) (outputs env left m ops) ↔
      ∀ f ∈ lastSet func ops, Leads env m f := by
  induction ops generalizing func with
  | nil => simp [lastSet, outputs]
  | cons op ops ih =>
      cases op with
      | overrideLogDetailsFunc func' =>
          rw [lastSet, outputs, outputs_override]
          exact ih func'
      | copyConstruct => exact ih func
      | moveConstruct => exact ih func
      | toString =>
          have hrest : outputs env left (m.toString env).2 ops = outputs env left m ops :=
            outputs_override env left m _ ops
          rw [lastSet, outputs, hrest, List.forall₂_cons, ih, List.forall_mem_cons,
            LogMessage.toString_default h]
          rfl

/-- A machine on which the program's own formatters return a text. -/
def telling (text : String) : Env := { FileSink.epoch with customDetails := fun _ _ => text }

/-- A formatter of the program may return more than the whole text by the default one. -/
theorem not_leads_custom (m : LogMessage) (id : ℕ) :
    ¬ Leads (telling (m.detailsBy FileSink.epoch .DefaultLogDetailsToString ++ m.afterDetails ++
      ".")) m (.custom id) := by
  intro h
  have hlength := h.length_le
  have hdefault (text : String) : m.detailsBy (telling text) .DefaultLogDetailsToString =
      m.detailsBy FileSink.epoch .DefaultLogDetailsToString := rfl
  have hcustom (text : String) : m.detailsBy (telling text) (.custom id) = text := rfl
  rw [hdefault, hcustom, String.toList_append, List.length_append] at hlength
  simp at hlength

/-- Every `toString()` of a message uses the formatter that was set last, whatever the time is
and the formatters of the program return, if and only if that is the default one each time. -/
theorem usesLastSet_iff (m : LogMessage) (h : m.Detailed) (ops : List FormatOp) :
    (∀ env left, UsesLastSet env left m ops) ↔
      ∀ func ∈ lastSet .DefaultLogDetailsToString ops, func = .DefaultLogDetailsToString := by
  constructor
  · intro huses func hfunc
    have hleads (env : Env) : Leads env m func :=
      (forall₂_outputs_iff env id h _ ops).mp (huses env id) func hfunc
    cases func with
    | DefaultLogDetailsToString => rfl
    | FullLogDetailsToString =>
        have htimestamp : m.timestamp FileSink.epoch = "0101 00:00:00.000000" := by
          simp [LogMessage.timestamp, FileSink.epoch, file_name_time_formatted, date_formatted,
            time_formatted]
        exact absurd (hleads FileSink.epoch)
          (not_leads_full _ (by simp [htimestamp]) (by simp [htimestamp]))
    | custom i => exact absurd (hleads _) (not_leads_custom m i)
  · intro hdefault env left
    refine (forall₂_outputs_iff env left h _ ops).mpr ?_
    intro func hfunc
    rw [hdefault func hfunc]
    exact leads_default env m

/-- The default formatter set again, and the message copied and formatted twice. -/
theorem usesLastSet_default :
    UsesLastSet FileSink.epoch id greeting [.overrideLogDetailsFunc .FullLogDetailsToString,
      .overrideLogDetailsFunc .DefaultLogDetailsToString, .toString, .copyConstruct, .toString] :=
  (usesLastSet_iff greeting (by decide) [.overrideLogDetailsFunc .FullLogDetailsToString,
      .overrideLogDetailsFunc .DefaultLogDetailsToString, .toString, .copyConstruct,
      .toString]).mpr (by simp [lastSet]) FileSink.epoch id

/-- The formatter with the thread id, set before a call of `toString()`. -/
theorem toString_forgets_formatter :
    outputs FileSink.epoch id greeting [.overrideLogDetailsFunc .FullLogDetailsToString,
        .toString] = ["I0101 00:00:00.000000 main.cpp->main:1] hello\n"] ∧
      greeting.detailsBy FileSink.epoch .FullLogDetailsToString =
        "0101 00:00:00.000000\tINFO [1 main.cpp->main:1]\t" ∧
      ¬ ∀ (env : Env) (left : String → String) (m : LogMessage) (ops : List FormatOp),
        m.Detailed → UsesLastSet env left m ops := by
  refine ⟨by decide +kernel, by decide +kernel, ?_⟩
  intro h
  have huses := h FileSink.epoch id greeting
    [.overrideLogDetailsFunc .FullLogDetailsToString, .toString] (by decide)
  have hleads : Leads FileSink.epoch greeting .FullLogDetailsToString :=
    (forall₂_outputs_iff FileSink.epoch id (by decide) _ _).mp huses _ (by simp [lastSet])
  exact not_leads_full FileSink.epoch (by decide +kernel) (by decide +kernel) hleads

end FormatOp

end G3log
