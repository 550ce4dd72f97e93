import G3log.CrashHandler

/-!
# Log messages

A `LogMessage` carries what one log statement collected. Its formatter is a function
pointer: one of the two the library provides, or one of the program's own. What the
standard library and the operating system contribute -- the local-time formatting,
the names of the machine and the user, the text of a thread id -- is an `Env`.
-/

namespace G3log

/-- A pointer to a function that formats the details of a message. -/
inductive LogDetailsFunc
  | DefaultLogDetailsToString
  | FullLogDetailsToString
  | custom (id : ℕ)
  deriving DecidableEq, Repr

/-- The data collected from one log statement. Times are nanoseconds. -/
structure LogMessage where
  _logDetailsToStringFunc : LogDetailsFunc
  _timestamp : Int
  _call_thread_id : ℕ
  _file : String
  _file_path : String
  _line : Int
  _function : String
  _level : LEVELS
  _expression : String
  _message : String
  deriving DecidableEq, Repr

/-- A message that ends the process, with the signal to end it by. -/
structure FatalMessage extends LogMessage where
  _signal_id : Int
  deriving DecidableEq, Repr

/-- What the library asks of its surroundings. -/
structure Env where
  /-- A time in the local time zone, by a format. -/
  localtime_formatted : Int → String → String
  /-- The node name of the machine. -/
  nodename : String
  /-- The environment variable *USER*. -/
  user : Option String
  /-- The flag naming a directory for one more link to the log. -/
  FLAGS_log_link : String
  /-- The text of a thread id. -/
  threadIdText : ℕ → String
  /-- The program's own formatters. -/
  customDetails : ℕ → LogMessage → String

def date_formatted : String := "%m%d"
def time_formatted : String := "%H:%M:%S.%f6"

namespace LogMessage

def level (m : LogMessage) : String := m._level.text
def level_value (m : LogMessage) : Int := m._level.value
def line (m : LogMessage) : String := toString m._line
def shortLevel (m : LogMessage) : String := String.ofList (m._level.text.toList.take 1)
def wasFatal (m : LogMessage) : Bool := G3log.wasFatal m._level

def timestamp (env : Env) (m : LogMessage)
    (time_look : String := date_formatted ++ " " ++ time_formatted) : String :=
  env.localtime_formatted m._timestamp time_look

def threadID (env : Env) (m : LogMessage) : String := env.threadIdText m._call_thread_id

def DefaultLogDetailsToString (env : Env) (m : LogMessage) : String :=
  m.shortLevel ++ m.timestamp env ++ " " ++ m._file ++ "->" ++ m._function ++ ":" ++ m.line ++ "] "

def FullLogDetailsToString (env : Env) (m : LogMessage) : String :=
  m.timestamp env ++ "\t" ++ m.level ++ " [" ++ m.threadID env ++ " " ++ m._file ++ "->" ++
    m._function ++ ":" ++ m.line ++ "]\t"

/-- Call the formatter the message holds. -/
def logDetails (env : Env) (m : LogMessage) : String :=
  match m._logDetailsToStringFunc with
  | .DefaultLogDetailsToString => m.DefaultLogDetailsToString env
  | .FullLogDetailsToString => m.FullLogDetailsToString env
  | .custom id => env.customDetails id m

def fatalSignalToString (env : Env) (m : LogMessage) : String :=
  m.timestamp env ++ "\n\n***** FATAL SIGNAL RECEIVED ******* \n" ++ m._message ++ "\n"

def fatalExceptionToString (env : Env) (m : LogMessage) : String :=
  m.timestamp env ++ "\n\n***** FATAL EXCEPTION RECEIVED ******* \n" ++ m._message ++ "\n"

def fatalLogToString (env : Env) (m : LogMessage) : String :=
  m.logDetails env ++ "\n\t*******\t " ++ "EXIT trigger caused by LOG(FATAL) entry: " ++
    "\n\t\"" ++ m._message ++ "\""

def fatalCheckToString (env : Env) (m : LogMessage) : String :=
  m.logDetails env ++ "\n\t*******\t " ++ "EXIT trigger caused by broken Contract:" ++
    " CHECK(" ++ m._expression ++ ")\n\t\"" ++ m._message ++ "\""

def normalToString (env : Env) (m : LogMessage) : String := m.logDetails env ++ m._message ++ "\n"

def overrideLogDetailsFunc (func : LogDetailsFunc) (m : LogMessage) : LogMessage :=
  { m with _logDetailsToStringFunc := func }

/-- The text of a message by its type, with the formatter it holds. -/
def formatted (env : Env) (m : LogMessage) : String :=
  if m.wasFatal = false then m.normalToString env
  else if FATAL_SIGNAL.value = m._level.value then m.fatalSignalToString env
  else if FATAL_EXCEPTION.value = m._level.value then m.fatalExceptionToString env
  else if G3LOG_FATAL.value = m._level.value then m.fatalLogToString env
  else if CONTRACT.value = m._level.value then m.fatalCheckToString env
  else
    m.logDetails env ++ "\t*******" ++ "UNKNOWN or Custom made Log Message Type" ++ "\n\t" ++
      m._message ++ "\n"

/-- The text of a message, and the message, which keeps the formatter it was given. -/
def toString (env : Env) (m : LogMessage)
    (formattingFunc : LogDetailsFunc := .DefaultLogDetailsToString) : String × LogMessage :=
  let m' := m.overrideLogDetailsFunc formattingFunc
  (m'.formatted env, m')

/-- `write().append(text)`. -/
def append (m : LogMessage) (text : String) : LogMessage :=
  { m with _message := m._message ++ text }

theorem formatted_ne_empty (env : Env) (m : LogMessage) : m.formatted env ≠ "" := by
  unfold formatted
  split_ifs <;>
    simp [normalToString, fatalSignalToString, fatalExceptionToString, fatalLogToString,
      fatalCheckToString]

end LogMessage

namespace FatalMessage

def reason (f : FatalMessage) : String := exitReasonName f._level f._signal_id

/-- The message `bgFatal` forwards: the fatal one with the exit notice appended. -/
def exitNotice (f : FatalMessage) : LogMessage :=
  (f.toLogMessage.append ("\nExiting after fatal event  (" ++ f.level)).append
    ("). " ++ "Fatal type: " ++ " " ++ f.reason ++ "\nLog content flushed sucessfully to sink\n\n")

/-- What `bgFatal` forwards is the fatal message, with more text behind its own. -/
theorem exitNotice_eq (f : FatalMessage) : ∃ notice : String,
    f.exitNotice = { f.toLogMessage with _message := f._message ++ notice } := by
  refine ⟨"\nExiting after fatal event  (" ++ f.level ++ ("). " ++ "Fatal type: " ++ " " ++
    f.reason ++ "\nLog content flushed sucessfully to sink\n\n"), ?_⟩
  simp only [exitNotice, LogMessage.append, String.append_assoc]

end FatalMessage

/-- A message to follow through the library. -/
def greeting : LogMessage where
  _logDetailsToStringFunc := .DefaultLogDetailsToString
  _timestamp := 0
  _call_thread_id := 1
  _file := "main.cpp"
  _file_path := "main.cpp"
  _line := 1
  _function := "main"
  _level := G3LOG_INFO
  _expression := ""
  _message := "hello"

/-- A fatal one. -/
def lastWords : FatalMessage := { greeting with _level := G3LOG_FATAL, _signal_id := SIGABRT }

end G3log
