import G3log.LogCapture
import G3log.Time
import G3log.Lib.Fields

/-!
# The stack dump

The lines of a backtrace, *file(name+offset) [address]*, are cut into strings in place: a
pass over a line keeps pointers to the last opening parenthesis and the last plus sign
before the first closing parenthesis, and a NUL goes over each of the three. Here memory
is a list of characters, a pointer is an index, and an access behind the end of memory has
no result.

## Main definitions

* `scan`, `Cuts.inOrder`, `dumpLine`, `stackdump` -- the code.
* `Symbol`, `Symbol.Of` -- a line in its parts.
* `Dumped` -- what is promised of a line.
-/

namespace G3log.StackDump

open Fields Time

def nul : Char := '\x00'

/-- Write a character through a pointer. -/
def write (p : ℕ) (c : Char) (memory : List Char) : Option (List Char) :=
  if p < memory.length then some (memory.set p c) else none

/-- The string that a pointer leads to. -/
def readString (p : ℕ) (memory : List Char) : Option (List Char) :=
  if nul ∈ memory.drop p then some (cstr (memory.drop p)) else none

/-- The pointers that the pass over a line sets. -/
structure Cuts where
  mangled_name : Option ℕ
  offset_begin : Option ℕ
  offset_end : Option ℕ
  deriving DecidableEq, Repr

/-- The pass over a line, from `p` on, where memory holds the given characters. -/
def scan (p : ℕ) (cuts : Cuts) : List Char → Option Cuts
  | [] => none
  | c :: rest =>
      if c = nul then some cuts
      else if c = '(' then scan (p + 1) { cuts with mangled_name := some p } rest
      else if c = '+' then scan (p + 1) { cuts with offset_begin := some p } rest
      else if c = ')' then some { cuts with offset_end := some p }
      else scan (p + 1) cuts rest

/-- The three pointers of a line that could be processed. -/
def Cuts.inOrder (cuts : Cuts) : Option (ℕ × ℕ × ℕ) :=
  match cuts.mangled_name, cuts.offset_begin, cuts.offset_end with
  | some mangled_name, some offset_begin, some offset_end =>
      if mangled_name < offset_begin then some (mangled_name, offset_begin, offset_end) else none
  | _, _, _ => none

/-- The text for a line without demangling. -/
def plainText (idx : ℕ) (line : List Char) : List Char :=
  "\tstack dump [".toList ++ (toString idx).toList ++ "]  ".toList ++ line ++ "\n".toList

/-- The text for a line with a demangled name. -/
def demangledText (idx : ℕ) (line real_name offset : List Char) : List Char :=
  "\n\tstack dump [".toList ++ (toString idx).toList ++ "]  ".toList ++ line ++ " : ".toList ++
    real_name ++ "+".toList ++ offset ++ "\n".toList

section
variable (demangle : List Char → Option (List Char))

/-- One turn of the loop over the lines: the text for a line, and memory with its cuts. -/
def dumpLine (idx line : ℕ) (memory : List Char) : Option (List Char × List Char) := do
  let cuts ← scan line ⟨none, none, none⟩ (memory.drop line)
  match cuts.inOrder with
  | some (mangled_name, offset_begin, offset_end) =>
      let memory ← write mangled_name nul memory
      let memory ← write offset_begin nul memory
      let memory ← write offset_end nul memory
      let message ← readString line memory
      let name ← readString (mangled_name + 1) memory
      let offset ← readString (offset_begin + 1) memory
      let tail ← readString (offset_end + 1) memory
      match demangle name with
      | some real_name => some (demangledText idx message real_name (offset ++ tail), memory)
      | none => some (plainText idx (message ++ name ++ "+".toList ++ offset ++ tail), memory)
  | none =>
      -- no demangling done -- just dump the whole line
      let message ← readString line memory
      some (plainText idx message, memory)

/-- The loop, from the line with an index on. -/
def dumpLines : ℕ → List ℕ → List Char → Option (List Char)
  | _, [], _ => some []
  | idx, line :: lines, memory => do
      let (text, memory) ← dumpLine demangle idx line memory
      let rest ← dumpLines (idx + 1) lines memory
      some (text ++ rest)

/-- A dump that was made before is used as it is. The first line is skipped. -/
def stackdump (rawdump : Option CText) (messages : Option (List ℕ)) (memory : List Char) :
    Option (List Char) :=
  match rawdump, messages with
  | some dump, messages =>
      if dump.chars ≠ [] then some dump.chars
      else dumpLines demangle 1 (messages.getD []).tail memory
  | none, messages => dumpLines demangle 1 (messages.getD []).tail memory

end

/-! ## The parts of a line -/

structure Symbol where
  head : List Char
  name : List Char
  offset : List Char
  tail : List Char

namespace Symbol

/-- The line with characters in the three places between the parts. -/
def between (s : Symbol) (a b c : Char) : List Char :=
  s.head ++ a :: (s.name ++ b :: (s.offset ++ c :: s.tail))

/-- The line is made of these parts, and its first closing parenthesis ends the offset. -/
structure Of (s : Symbol) (line : List Char) : Prop where
  eq : line = s.between '(' '+' ')'
  head : ')' ∉ s.head
  name : '(' ∉ s.name ∧ ')' ∉ s.name
  offset : '+' ∉ s.offset ∧ '(' ∉ s.offset ∧ ')' ∉ s.offset

end Symbol

section
variable (demangle : List Char → Option (List Char)) (idx : ℕ) (before line after : List Char)

/-- What is promised of a line in memory: the text for it, and memory afterwards. A line that
has no parts is left whole. In one that has, the three characters between them are gone and
nothing else is written to. -/
inductive Dumped : List Char → List Char → Prop
  | whole (hline : ¬ ∃ s : Symbol, s.Of line) :
      Dumped (plainText idx line) (before ++ (line ++ nul :: after))
  | mangled (s : Symbol) (hline : s.Of line) (hname : demangle s.name = none) :
      Dumped (plainText idx (s.head ++ s.name ++ "+".toList ++ s.offset ++ s.tail))
        (before ++ (s.between nul nul nul ++ nul :: after))
  | demangled (s : Symbol) (hline : s.Of line) (real_name : List Char)
      (hname : demangle s.name = some real_name) :
      Dumped (demangledText idx s.head real_name (s.offset ++ s.tail))
        (before ++ (s.between nul nul nul ++ nul :: after))

end

/-! ## The pass -/

/-- What the pointers are after a text without a closing parenthesis. -/
structure Passed (base : ℕ) (seen : List Char) (cuts : Cuts) : Prop where
  mangled_name : LastAt base '(' seen cuts.mangled_name
  offset_begin : LastAt base '+' seen cuts.offset_begin
  offset_end : cuts.offset_end = none

theorem passed_nil (base : ℕ) : Passed base [] ⟨none, none, none⟩ :=
  ⟨lastAt_nil base _, lastAt_nil base _, rfl⟩

/-- The pass over a text goes on behind it. -/
theorem scan_append {base : ℕ} {seen front : List Char} {cuts : Cuts}
    (h : Passed base seen cuts) (hnul : nul ∉ front) (hend : ')' ∉ front) (more : List Char) :
    ∃ cuts', Passed base (seen ++ front) cuts' ∧
      scan (base + seen.length) cuts (front ++ more) =
        scan (base + (seen ++ front).length) cuts' more := by
  induction front generalizing seen cuts with
  | nil => exact ⟨cuts, by simpa using h, by simp⟩
  | cons c front ih =>
      rw [List.mem_cons, not_or] at hnul hend
      have happend : seen ++ c :: front = (seen ++ [c]) ++ front := by simp
      have hlength : base + seen.length + 1 = base + (seen ++ [c]).length := by
        simp only [List.length_append, List.length_singleton]
        omega
      rw [happend, List.cons_append, scan, if_neg (Ne.symm hnul.1), hlength]
      by_cases hname : c = '('
      · subst hname
        rw [if_pos rfl]
        refine ih ⟨?_, ?_, h.offset_end⟩ hnul.2 hend.2
        · exact lastAt_concat base _ seen
        · exact h.offset_begin.concat (by decide)
      · rw [if_neg hname]
        by_cases hoffset : c = '+'
        · subst hoffset
          rw [if_pos rfl]
          refine ih ⟨?_, ?_, h.offset_end⟩ hnul.2 hend.2
          · exact h.mangled_name.concat hname
          · exact lastAt_concat base _ seen
        · rw [if_neg hoffset, if_neg (Ne.symm hend.1)]
          refine ih ⟨?_, ?_, h.offset_end⟩ hnul.2 hend.2
          · exact h.mangled_name.concat hname
          · exact h.offset_begin.concat hoffset

/-- A line without a closing parenthesis is passed over up to its NUL. -/
theorem scan_open {line : List Char} (base : ℕ) (after : List Char) (hnul : nul ∉ line)
    (hend : ')' ∉ line) :
    ∃ cuts, scan base ⟨none, none, none⟩ (line ++ nul :: after) = some cuts ∧
      cuts.inOrder = none := by
  obtain ⟨cuts, hcuts, hscan⟩ := scan_append (passed_nil base) hnul hend (nul :: after)
  refine ⟨cuts, ?_, ?_⟩
  · rw [List.length_nil, Nat.add_zero] at hscan
    rw [hscan, scan, if_pos rfl]
  · simp [Cuts.inOrder, hcuts.offset_end]

/-- The pass over another line ends at the closing parenthesis. -/
theorem scan_closed {front : List Char} (base : ℕ) (more : List Char) (hnul : nul ∉ front)
    (hend : ')' ∉ front) :
    ∃ cuts, scan base ⟨none, none, none⟩ (front ++ ')' :: more) =
        some { cuts with offset_end := some (base + front.length) } ∧
      Passed base front cuts := by
  obtain ⟨cuts, hcuts, hscan⟩ := scan_append (passed_nil base) hnul hend (')' :: more)
  refine ⟨cuts, ?_, hcuts⟩
  rw [List.length_nil, Nat.add_zero, List.nil_append] at hscan
  rw [hscan, scan, if_neg (by decide), if_neg (by decide), if_neg (by decide), if_pos rfl]

/-! ## Memory -/

theorem write_append (front rest : List Char) (c d : Char) :
    write front.length d (front ++ c :: rest) = some (front ++ d :: rest) := by
  simp [write]

theorem readString_append {text : List Char} (hnul : nul ∉ text) (front rest : List Char) :
    readString front.length (front ++ (text ++ nul :: rest)) = some text := by
  have hpos : ∀ c ∈ text, decide (c ≠ '\x00') = true := by
    intro c hc
    have hne : c ≠ nul := by
      intro heq
      exact hnul (heq ▸ hc)
    simpa [nul] using hne
  have hcstr : cstr (text ++ nul :: rest) = text := by
    rw [cstr, List.takeWhile_append_of_pos hpos]
    simp [nul]
  simp [readString, hcstr]

namespace Symbol
variable (s : Symbol) (before rest : List Char) (a b c d : Char)

theorem write_name : write (before.length + s.head.length) d (before ++ (s.between a b c ++ rest)) =
    some (before ++ (s.between d b c ++ rest)) := by
  have h := write_append (before ++ s.head) (s.name ++ b :: (s.offset ++ c :: (s.tail ++ rest))) a d
  simpa [between] using h

theorem write_offset :
    write (before.length + (s.head.length + 1 + s.name.length)) d
        (before ++ (s.between a b c ++ rest)) =
      some (before ++ (s.between a d c ++ rest)) := by
  have h := write_append (before ++ s.head ++ a :: s.name) (s.offset ++ c :: (s.tail ++ rest)) b d
  have hlength : (before ++ s.head ++ a :: s.name).length =
      before.length + (s.head.length + 1 + s.name.length) := by
    simp only [List.length_append, List.length_cons]
    omega
  rw [hlength] at h
  simpa [between] using h

theorem write_end :
    write (before.length + (s.head ++ '(' :: (s.name ++ '+' :: s.offset)).length) d
        (before ++ (s.between a b c ++ rest)) =
      some (before ++ (s.between a b d ++ rest)) := by
  have h := write_append (before ++ s.head ++ a :: (s.name ++ b :: s.offset)) (s.tail ++ rest) c d
  have hlength : (before ++ s.head ++ a :: (s.name ++ b :: s.offset)).length =
      before.length + (s.head ++ '(' :: (s.name ++ '+' :: s.offset)).length := by
    simp only [List.length_append, List.length_cons]
    omega
  rw [hlength] at h
  simpa [between] using h

/-- The strings between the NULs. -/
theorem readString_parts (hhead : nul ∉ s.head) (hname : nul ∉ s.name) (hoffset : nul ∉ s.offset)
    (htail : nul ∉ s.tail) :
    let memory := before ++ (s.between nul nul nul ++ nul :: rest)
    readString before.length memory = some s.head ∧
      readString (before.length + s.head.length + 1) memory = some s.name ∧
      readString (before.length + (s.head.length + 1 + s.name.length) + 1) memory =
        some s.offset ∧
      readString (before.length + (s.head ++ '(' :: (s.name ++ '+' :: s.offset)).length + 1)
        memory = some s.tail := by
  intro memory
  have h₁ := readString_append hhead before
    (s.name ++ nul :: (s.offset ++ nul :: (s.tail ++ nul :: rest)))
  have h₂ := readString_append hname (before ++ s.head ++ [nul])
    (s.offset ++ nul :: (s.tail ++ nul :: rest))
  have h₃ := readString_append hoffset (before ++ s.head ++ nul :: s.name ++ [nul])
    (s.tail ++ nul :: rest)
  have h₄ := readString_append htail
    (before ++ s.head ++ nul :: (s.name ++ nul :: s.offset) ++ [nul]) rest
  have hname_length : (before ++ s.head ++ [nul]).length =
      before.length + s.head.length + 1 := by
    simp only [List.length_append, List.length_singleton]
  have hoffset_length : (before ++ s.head ++ nul :: s.name ++ [nul]).length =
      before.length + (s.head.length + 1 + s.name.length) + 1 := by
    simp only [List.length_append, List.length_cons, List.length_nil]
    omega
  have htail_length : (before ++ s.head ++ nul :: (s.name ++ nul :: s.offset) ++ [nul]).length =
      before.length + (s.head ++ '(' :: (s.name ++ '+' :: s.offset)).length + 1 := by
    simp only [List.length_append, List.length_cons, List.length_nil]
    omega
  rw [hname_length] at h₂
  rw [hoffset_length] at h₃
  rw [htail_length] at h₄
  refine ⟨?_, ?_, ?_, ?_⟩
  · simpa [memory, between] using h₁
  · simpa [memory, between] using h₂
  · simpa [memory, between] using h₃
  · simpa [memory, between] using h₄

end Symbol

/-! ## A line -/

/-- The pass over a line with parts sets the pointers between them. -/
theorem scan_symbol {s : Symbol} {line : List Char} (h : s.Of line) (base : ℕ)
    (after : List Char) (hnul : nul ∉ line) :
    ∃ cuts, scan base ⟨none, none, none⟩ (line ++ nul :: after) = some cuts ∧
      cuts.inOrder = some (base + s.head.length, base + (s.head.length + 1 + s.name.length),
        base + (s.head ++ '(' :: (s.name ++ '+' :: s.offset)).length) := by
  set front := s.head ++ '(' :: (s.name ++ '+' :: s.offset) with hfront
  have hline : line = front ++ ')' :: s.tail := by
    rw [h.eq, hfront]
    simp [Symbol.between]
  have hend : ')' ∉ front := by simp [hfront, h.head, h.name.2, h.offset.2.2]
  have hname : LastAt base '(' front (some (base + s.head.length)) :=
    ⟨s.head, s.name ++ '+' :: s.offset, hfront, rfl, by simp [h.name.1, h.offset.2.1]⟩
  have hoffset : LastAt base '+' front (some (base + (s.head.length + 1 + s.name.length))) := by
    refine ⟨s.head ++ '(' :: s.name, s.offset, by simp [hfront], ?_, h.offset.1⟩
    simp only [List.length_append, List.length_cons]
    omega
  rw [hline] at hnul
  obtain ⟨cuts, hscan, hcuts⟩ := scan_closed base (s.tail ++ nul :: after)
    (fun hmem => hnul (List.mem_append_left _ hmem)) hend
  refine ⟨{ cuts with offset_end := some (base + front.length) }, ?_, ?_⟩
  · rw [hline, List.append_assoc, List.cons_append]
    exact hscan
  · have hlt : base + s.head.length < base + (s.head.length + 1 + s.name.length) := by omega
    simp only [Cuts.inOrder, hcuts.mangled_name.unique hname, hcuts.offset_begin.unique hoffset,
      if_pos hlt]

/-- The pass over a line without parts leaves the pointers missing or out of order. -/
theorem scan_whole {line : List Char} (h : ¬ ∃ s : Symbol, s.Of line) (base : ℕ)
    (after : List Char) (hnul : nul ∉ line) :
    ∃ cuts, scan base ⟨none, none, none⟩ (line ++ nul :: after) = some cuts ∧
      cuts.inOrder = none := by
  by_cases hend : ')' ∈ line
  · obtain ⟨front, tail, hline, hfront⟩ := List.eq_append_cons_of_mem hend
    rw [hline] at hnul
    obtain ⟨cuts, hscan, hcuts⟩ := scan_closed base (tail ++ nul :: after)
      (fun hmem => hnul (List.mem_append_left _ hmem)) hfront
    have hscan' : scan base ⟨none, none, none⟩ (line ++ nul :: after) =
        some { cuts with offset_end := some (base + front.length) } := by
      rw [hline, List.append_assoc, List.cons_append]
      exact hscan
    refine ⟨_, hscan', ?_⟩
    have hname := hcuts.mangled_name
    have hoffset := hcuts.offset_begin
    cases hp : cuts.mangled_name with
    | none => simp [Cuts.inOrder]
    | some p =>
        cases hq : cuts.offset_begin with
        | none => simp [Cuts.inOrder]
        | some q =>
            have hle : ¬ p < q := by
              intro hlt
              rw [hp] at hname
              rw [hq] at hoffset
              obtain ⟨head, name, offset, hparts, -, -, h₁, h₂, h₃⟩ := hname.between hoffset hlt
              rw [hparts] at hline hfront
              simp only [List.mem_append, List.mem_cons, not_or] at hfront
              refine h ⟨⟨head, name, offset, tail⟩, ?_, hfront.1, ⟨h₁, ?_⟩, h₃, h₂, ?_⟩
              · simp [hline, Symbol.between]
              · exact hfront.2.2.1
              · exact hfront.2.2.2.2
            simp [Cuts.inOrder, hle]
  · exact scan_open base after hnul hend

/-- A line is dumped as it is promised, whatever stands before and behind it. -/
theorem dumpLine_dumped (demangle : List Char → Option (List Char)) (idx : ℕ)
    (before : List Char) (line : CText) (after : List Char) :
    ∃ text memory, dumpLine demangle idx before.length
        (before ++ (line.chars ++ nul :: after)) = some (text, memory) ∧
      Dumped demangle idx before line.chars after text memory := by
  have hnul : nul ∉ line.chars := line.nul_notMem
  by_cases hline : ∃ s : Symbol, s.Of line.chars
  · obtain ⟨s, hs⟩ := hline
    obtain ⟨cuts, hscan, hcuts⟩ := scan_symbol hs before.length after hnul
    have hparts : line.chars = s.between '(' '+' ')' := hs.eq
    have hmem : nul ∉ s.head ∧ nul ∉ s.name ∧ nul ∉ s.offset ∧ nul ∉ s.tail := by
      simp only [hparts, Symbol.between, List.mem_append, List.mem_cons, not_or] at hnul
      exact ⟨hnul.1, hnul.2.2.1, hnul.2.2.2.2.1, hnul.2.2.2.2.2.2⟩
    obtain ⟨h₁, h₂, h₃, h₄⟩ :=
      s.readString_parts before after hmem.1 hmem.2.1 hmem.2.2.1 hmem.2.2.2
    cases hname : demangle s.name with
    | none =>
        refine ⟨_, _, ?_, .mangled s hs hname⟩
        simp only [dumpLine, List.drop_left, hscan, Option.bind_eq_bind, Option.bind_some, hcuts]
        simp only [hparts, Symbol.write_name, Symbol.write_offset, Symbol.write_end,
          Option.bind_some, h₁, h₂, h₃, h₄, hname]
    | some real_name =>
        refine ⟨_, _, ?_, .demangled s hs real_name hname⟩
        simp only [dumpLine, List.drop_left, hscan, Option.bind_eq_bind, Option.bind_some, hcuts]
        simp only [hparts, Symbol.write_name, Symbol.write_offset, Symbol.write_end,
          Option.bind_some, h₁, h₂, h₃, h₄, hname]
  · obtain ⟨cuts, hscan, hcuts⟩ := scan_whole hline before.length after hnul
    refine ⟨_, _, ?_, .whole hline⟩
    simp only [dumpLine, List.drop_left, hscan, Option.bind_eq_bind, Option.bind_some, hcuts,
      readString_append hnul]

/-! ## All lines -/

/-- The lines as they stand in memory, one behind the other. -/
def block (lines : List CText) : List Char := lines.flatMap fun line => line.chars ++ [nul]

/-- The pointers to lines that stand at `base`. -/
def starts : ℕ → List CText → List ℕ
  | _, [] => []
  | base, line :: lines => base :: starts (base + line.chars.length + 1) lines

/-- A text holds what is promised for each line, by its index. -/
def Dumps (demangle : List Char → Option (List Char)) : ℕ → List CText → List Char → Prop
  | _, [], text => text = []
  | idx, line :: lines, text => ∃ front rest, text = front ++ rest ∧
      (∃ before after memory, Dumped demangle idx before line.chars after front memory) ∧
      Dumps demangle (idx + 1) lines rest

/-- The cuts of a line stay inside it. -/
theorem Dumped.memory_eq {demangle : List Char → Option (List Char)} {idx : ℕ}
    {before line after text memory : List Char}
    (h : Dumped demangle idx before line after text memory) :
    ∃ chars : List Char, chars.length = line.length ∧
      memory = before ++ (chars ++ nul :: after) := by
  cases h with
  | whole => exact ⟨line, rfl, rfl⟩
  | mangled s hline => exact ⟨s.between nul nul nul, by simp [hline.eq, Symbol.between], rfl⟩
  | demangled s hline => exact ⟨s.between nul nul nul, by simp [hline.eq, Symbol.between], rfl⟩

theorem dumpLines_dumps (demangle : List Char → Option (List Char)) (idx : ℕ)
    (before : List Char) (lines : List CText) (after : List Char) :
    ∃ text, dumpLines demangle idx (starts before.length lines)
        (before ++ (block lines ++ after)) = some text ∧ Dumps demangle idx lines text := by
  induction lines generalizing idx before with
  | nil => exact ⟨[], rfl, rfl⟩
  | cons line lines ih =>
      obtain ⟨front, memory, hline, hdumped⟩ :=
        dumpLine_dumped demangle idx before line (block lines ++ after)
      obtain ⟨chars, hlength, hmemory⟩ := hdumped.memory_eq
      have hblock : block (line :: lines) ++ after =
          line.chars ++ nul :: (block lines ++ after) := by
        simp [block]
      have hstart : before.length + line.chars.length + 1 =
          (before ++ chars ++ [nul]).length := by
        simp [hlength, Nat.add_assoc]
      have hrest : memory = before ++ chars ++ [nul] ++ (block lines ++ after) := by
        simp [hmemory]
      obtain ⟨rest, hlines, hdumps⟩ := ih (idx + 1) (before ++ chars ++ [nul])
      refine ⟨front ++ rest, ?_, front, rest, rfl, ⟨_, _, _, hdumped⟩, hdumps⟩
      rw [starts, dumpLines, hblock, hline, hstart]
      simp only [Option.bind_eq_bind, Option.bind_some, hrest, hlines]

/-- A line of a backtrace is left whole, if it has no parts, or cut at the three characters
between its parts, and nothing else is written to; so is every line of a dump. -/
theorem symbol_lines_split (demangle : List Char → Option (List Char)) :
    (∀ idx before (line : CText) after, ∃ text memory,
      dumpLine demangle idx before.length (before ++ (line.chars ++ nul :: after)) =
          some (text, memory) ∧
        Dumped demangle idx before line.chars after text memory) ∧
    ∀ before (line : CText) lines after, ∃ text,
      stackdump demangle none (some (starts before.length (line :: lines)))
          (before ++ (block (line :: lines) ++ after)) = some text ∧
        Dumps demangle 1 lines text := by
  constructor
  · exact dumpLine_dumped demangle
  · intro before line lines after
    have hblock : before ++ (block (line :: lines) ++ after) =
        before ++ line.chars ++ [nul] ++ (block lines ++ after) := by
      simp [block]
    have hstart : (starts before.length (line :: lines)).tail =
        starts (before ++ line.chars ++ [nul]).length lines := by
      simp [starts, Nat.add_assoc]
    obtain ⟨text, htext, hdumps⟩ :=
      dumpLines_dumps demangle 1 (before ++ line.chars ++ [nul]) lines after
    refine ⟨text, ?_, hdumps⟩
    rw [stackdump, Option.getD_some, hstart, hblock]
    exact htext

example : dumpLine (fun _ => none) 1 0 "a(b)(f+0x1) [2]\x00".toList =
    some ("\tstack dump [1]  a(b)(f+0x1) [2]\n".toList, "a(b)(f+0x1) [2]\x00".toList) := by
  decide +kernel

end G3log.StackDump
