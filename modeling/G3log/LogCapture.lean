import G3log.CrashHandler

/-!
# Capturing a log statement

A `LogCapture` collects the text of one log statement in a stream. The statements that
look like `printf` go through `capturef`, which has `vsnprintf` format into a buffer of a
size that `setMaxMessageSize` sets, and reads the outcome off the number it returns: that
of the characters the whole text has.

## Main definitions

* `LogCapture`, `capturef`, `setMaxMessageSize` -- the code.
* `Expansion` -- what a format and its arguments expand to.
* `Captured` -- what is promised of the stream, and `captured_iff`, when it is kept.
-/

namespace G3log

def INT_MAX : ℕ := 2147483647

structure LogCapture where
  _stream : List Char
  _stack_trace : String
  _file : String
  _line : Int
  _function : String
  _level : LEVELS
  _expression : String
  _fatal_signal : Int
  deriving DecidableEq, Repr

/-- The constructor. A fatal capture takes a stack dump, and the others do without. -/
def LogCapture.new (stackdump file : String) (line : Int) (function : String) (level : LEVELS)
    (expression : String := "") (fatal_signal : Int := SIGABRT) : LogCapture where
  _stream := []
  _stack_trace := if wasFatal level then "\n*******\tSTACKDUMP *******\n" ++ stackdump else ""
  _file := file
  _line := line
  _function := function
  _level := level
  _expression := expression
  _fatal_signal := fatal_signal

/-- A text as it stands in a C string. -/
structure CText where
  chars : List Char
  nul_notMem : '\x00' ∉ chars

/-- What `vsnprintf` makes of a format and its arguments: a text, or an encoding error. -/
inductive Expansion
  | text (s : CText)
  | error (code : {n : Int // n < 0})

/-- The characters in the buffer, up to their NUL, and the number that is returned. After
an error nothing is promised of the buffer. -/
def vsnprintf (size : ℕ) : Expansion → List Char × Int
  | .text s => (s.chars.take (size - 1), s.chars.length)
  | .error code => ([], code)

/-- The size of the buffer, a `size_t` put into an `int`. -/
def setMaxMessageSize (max_size : ℕ) : Int := Int.bmod max_size 4294967296

def kTruncatedWarningText : List Char := "[...truncated...]".toList

/-- What stands for a text that could not be formatted. -/
def parseFailure (printf_like_message : List Char) : List Char :=
  "\n\tERROR LOG MSG NOTIFICATION: Failure to successfully parse the message".toList ++
    '"' :: printf_like_message ++ "\"\n".toList

theorem kTruncatedWarningText_ne_nil : kTruncatedWarningText ≠ [] := by decide

theorem parseFailure_ne_nil (printf_like_message : List Char) :
    parseFailure printf_like_message ≠ [] := by
  apply List.append_ne_nil_of_left_ne_nil
  apply List.append_ne_nil_of_right_ne_nil
  apply List.cons_ne_nil

/-- `MaxMessageSize` is the size of the buffer. -/
def LogCapture.capturef (MaxMessageSize : Int) (printf_like_message : List Char)
    (expansion : Expansion) (c : LogCapture) : LogCapture :=
  let finished_message_len := MaxMessageSize
  let (finished_message, nbrcharacters) := vsnprintf finished_message_len.toNat expansion
  if nbrcharacters ≤ 0 then
    { c with _stream := c._stream ++ parseFailure printf_like_message }
  else if nbrcharacters > finished_message_len then
    { c with _stream := c._stream ++ finished_message ++ kTruncatedWarningText }
  else { c with _stream := c._stream ++ finished_message }

/-- A size that the buffer can have. -/
structure MessageSize where
  val : ℕ
  pos : 0 < val
  le_max : val ≤ INT_MAX

theorem setMaxMessageSize_eq (size : MessageSize) : setMaxMessageSize size.val = size.val := by
  have hle := size.le_max
  simp only [INT_MAX] at hle
  apply Int.bmod_eq_of_le
  · omega
  · omega

/-- The text whole if there is room for it, else the front of it and a mark; a notice only
for a text that could not be formatted. -/
def Captured (size : MessageSize) (printf_like_message : List Char) (expansion : Expansion)
    (c : LogCapture) : Prop :=
  (c.capturef (setMaxMessageSize size.val) printf_like_message expansion)._stream =
    c._stream ++ match expansion with
      | .text s =>
          if s.chars.length < size.val then s.chars
          else s.chars.take (size.val - 1) ++ kTruncatedWarningText
      | .error _ => parseFailure printf_like_message

/-- What `capturef` writes of a text. -/
theorem stream_capturef_text (size : MessageSize) (printf_like_message : List Char) (s : CText)
    (c : LogCapture) :
    (c.capturef (setMaxMessageSize size.val) printf_like_message (.text s))._stream =
      c._stream ++
        if s.chars = [] then parseFailure printf_like_message
        else if s.chars.length ≤ size.val then s.chars.take (size.val - 1)
        else s.chars.take (size.val - 1) ++ kTruncatedWarningText := by
  have hpos : ((s.chars.length : Int) ≤ 0) ↔ s.chars = [] := by
    rw [← List.length_eq_zero_iff]
    omega
  have hlen : ((s.chars.length : Int) > size.val) ↔ ¬ s.chars.length ≤ size.val := by omega
  simp only [LogCapture.capturef, vsnprintf, setMaxMessageSize_eq, Int.toNat_natCast, hpos, hlen]
  by_cases hnil : s.chars = []
  · simp [hnil]
  · by_cases hle : s.chars.length ≤ size.val
    · simp [hnil, hle]
    · simp [hnil, hle]

/-- The text that is empty gets the notice, and the one that is a character too long for
the buffer loses it without a mark. -/
theorem captured_iff (size : MessageSize) (printf_like_message : List Char)
    (expansion : Expansion) (c : LogCapture) :
    Captured size printf_like_message expansion c ↔
      ∀ s, expansion = .text s → s.chars ≠ [] ∧ s.chars.length ≠ size.val := by
  cases expansion with
  | error code =>
      have hcode : (code.val : Int) ≤ 0 := code.property.le
      simp [Captured, LogCapture.capturef, vsnprintf, hcode]
  | text s =>
      have hpos := size.pos
      simp only [Captured, stream_capturef_text, Expansion.text.injEq, forall_eq',
        List.append_cancel_left_eq]
      by_cases hnil : s.chars = []
      · simp [hnil, hpos, parseFailure_ne_nil]
      rcases lt_trichotomy s.chars.length size.val with hlt | heq | hgt
      · have htake : s.chars.take (size.val - 1) = s.chars :=
          List.take_of_length_le (by omega)
        simp [hnil, hlt, hlt.le, hlt.ne, htake]
      · simp [hnil, heq, kTruncatedWarningText_ne_nil]
      · have hle : ¬ s.chars.length ≤ size.val := by omega
        simp [hnil, hle, hgt.ne', hgt.not_gt]

/-- A text of as many characters as the buffer has, and an empty one. -/
theorem not_captured :
    ¬ Captured ⟨4, by decide, by decide⟩ "%s".toList (.text ⟨"abcd".toList, by decide⟩)
      (.new "" "main.cpp" 7 "main" G3LOG_INFO) ∧
    ¬ Captured ⟨2048, by decide, by decide⟩ "%s".toList (.text ⟨[], by decide⟩)
      (.new "" "main.cpp" 8 "main" G3LOG_INFO) := by
  simp only [Captured]
  decide +kernel

end G3log
