import G3log.LogMessage
import G3log.Lib.Overwrite

/-!
# Files, streams and file names

The file system is a map from path to bytes and a map of symbolic links. A stream
writes at an offset of its own, and opening one with truncation empties the file.
Every byte carries an origin that the program does not store: the call of `fileWrite`
whose message it belongs to, if any. It is what makes "the bytes of this message" a
part of a file even when two texts look alike.

The second half computes log file names, as `filesinkhelper.ipp` does. A path is the whole
text it is made of, and texts are taken to hold no NUL, where `open` would end a path.
-/

namespace G3log

open Overwrite

/-- A byte of a file, with the message it came from. -/
structure Cell where
  byte : Char
  origin : Option ℕ
  deriving DecidableEq, Repr

/-- Text the sink writes on its own account. -/
def own (text : String) : List Cell := text.toList.map (⟨·, none⟩)

/-- The text of the message that the `i`-th call of `fileWrite` was given. -/
def ofMessage (i : ℕ) (text : String) : List Cell := text.toList.map (⟨·, some i⟩)

/-- Bytes that were in a file beforehand. -/
def preexisting (bytes : List Char) : List Cell := bytes.map (⟨·, none⟩)

structure Disk where
  files : String → Option (List Cell)
  links : String → Option String

/-- An open `std::ofstream`: its file and where it writes next. -/
structure OFStream where
  path : String
  offset : ℕ
  deriving DecidableEq, Repr

/-- Write at the offset of the stream. A gap past the end of the file reads as NUL. -/
def OFStream.write (out : OFStream) (text : List Cell) (disk : Disk) : OFStream × Disk :=
  let contents := (disk.files out.path).map fun cs => writeAt ⟨'\x00', none⟩ cs out.offset text
  ({ out with offset := out.offset + text.length },
    { disk with files := Function.update disk.files out.path contents })

/-- `std::ios_base::trunc`: the file is empty once opened. -/
def openLogFile (complete_file_with_path : String) (opens : Bool) (disk : Disk) : Bool × Disk :=
  if opens then
    (true, { disk with files := Function.update disk.files complete_file_with_path (some []) })
  else (false, disk)

/-- The null pointer when the file could not be opened. -/
def createLogFile (file_with_full_path : String) (opens : Bool) (disk : Disk) :
    Option OFStream × Disk :=
  match openLogFile file_with_full_path opens disk with
  | (true, disk') => (some ⟨file_with_full_path, 0⟩, disk')
  | (false, disk') => (none, disk')

/-- `unlink` and then `symlink`, both taken to succeed. -/
def relink (target link : String) (disk : Disk) : Disk :=
  { disk with links := Function.update disk.links link (some target) }

/-! ## Names -/

def file_name_time_formatted : String := "%Y%m%d-%H%M%S"

def GetHostName (env : Env) : String := env.nodename

def GetUserName (env : Env) : String := env.user.getD "invalid-user"

def illegal_characters : List Char := "/,|<>:#$%\x7b\x7d[]'\"^!?+* ".toList

def isValidFilename (prefix_filename : String) : Bool :=
  !prefix_filename.toList.any (illegal_characters.contains ·) && !prefix_filename.toList.isEmpty

/-- `isspace` in the C locale. -/
def isspace (c : Char) : Bool := " \t\n\x0b\x0c\r".toList.contains c

/-- What follows the last character for which `p` holds, or the whole text. -/
def afterLast (p : Char → Bool) (text : List Char) : List Char :=
  (text.reverse.takeWhile fun c => !p c).reverse

/-- Drop the path, then white space, slashes, dots and colons; empty if still illegal. -/
def prefixSanityFix (logPrefix : String) : String :=
  let slash := afterLast (fun c => c == '/' || c == '\\') logPrefix.toList
  let spaces := slash.filter fun c => !isspace c
  let slashes := spaces.filter (· ≠ '/')
  let backslashes := slashes.filter (· ≠ '\\')
  let dots := backslashes.filter (· ≠ '.')
  let fixed := String.ofList (dots.filter (· ≠ ':'))
  if isValidFilename fixed then fixed else ""

/-- Unify the delimiters, drop trailing ones and blanks, and join with one slash. -/
def pathSanityFix (path file_name : String) : String :=
  let unified := path.toList.map fun c => if c = '\\' then '/' else c
  let trimmed := (unified.reverse.dropWhile fun c => c == '/' || c == ' ').reverse
  if trimmed.isEmpty then file_name else String.ofList trimmed ++ "/" ++ file_name

def header (env : Env) (headerFormat : String) (now : Int) : String :=
  "\t\tg3log created log at: " ++ env.localtime_formatted now "%a %b %d %H:%M:%S %Y" ++ "\n" ++
    headerFormat

/-- The logger id takes no part in the name. -/
def createLogFileName (env : Env) (verifiedPrefix : String) (level : LEVELS)
    (_logger_id : String) (now : Int) : String :=
  verifiedPrefix ++ "." ++ GetHostName env ++ "." ++ GetUserName env ++ ".log." ++ level.text ++
    "." ++ env.localtime_formatted now file_name_time_formatted

def createLinkName (verifiedPrefix : String) (level : LEVELS) : String :=
  verifiedPrefix ++ "." ++ level.text

/-! ## What a write does to the cells -/

/-- `Overwrite` speaks of the origins of cells. -/
abbrev Clean (cs : List Cell) : Prop := Untagged Cell.origin cs

@[simp] theorem clean_own (text : String) : Clean (own text) := by simp [Untagged, own]

@[simp] theorem clean_preexisting (bytes : List Char) : Clean (preexisting bytes) := by
  simp [Untagged, preexisting]

theorem origin_of_mem_ofMessage {i : ℕ} {text : String} {c : Cell}
    (h : c ∈ ofMessage i text) : c.origin = some i := by
  simp only [ofMessage, List.mem_map] at h
  obtain ⟨_, -, rfl⟩ := h
  rfl

theorem absent_ofMessage {i j : ℕ} (h : i ≠ j) (text : String) :
    Absent Cell.origin i (ofMessage j text) := by
  intro c hc
  simpa [origin_of_mem_ofMessage hc] using h.symm

theorem files_write_self {out : OFStream} {disk : Disk} {cs : List Cell}
    (h : disk.files out.path = some cs) (text : List Cell) :
    (out.write text disk).2.files out.path = some (writeAt ⟨'\x00', none⟩ cs out.offset text) := by
  simp [OFStream.write, h]

theorem files_write_of_ne {out : OFStream} {path : String} (h : path ≠ out.path)
    (text : List Cell) (disk : Disk) :
    (out.write text disk).2.files path = disk.files path := by
  simp [OFStream.write, h]

end G3log
