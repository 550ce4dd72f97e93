import G3log.Lib.Decimal
import G3log.Lib.Search
import Mathlib.Data.List.TakeWhile

/-!
# Time formatting

`localtime_formatted` hands a format to `strftime`, after a loop of its own has put the
fraction of the second in place of each `%f`, `%f3`, `%f6` and `%f9`. A time is a count of
nanoseconds since the epoch, and a string is its list of characters.

The fraction is a remainder of truncating division, so it is negative before the epoch,
and the length of its padding is an unsigned difference. The loop looks for `%f` alone,
where `strftime` reads the format from the left and takes `%%` for a percent sign.

## Main definitions

* `to_string`, `localtime_formatted_fractions`, `localtime_formatted` -- the code.
* `fraction`, `substitute` -- the digits, and the format with digits in it.
* `substituteDirectives`, `escapedF` -- the same for a format read as `strftime` reads it.
-/

namespace G3log.Time

open Decimal Search

/-- The kinds of a fraction of a second. -/
inductive Fractional
  | Millisecond
  | Microsecond
  | Nanosecond
  | NanosecondDefault
  deriving DecidableEq, Repr

/-- Why a computation has no result. -/
inductive Stop
  | fuel
  | length_error
  deriving DecidableEq, Repr

/-- Enough fuel gives this result. -/
def Returns {α : Type} (run : ℕ → Except Stop α) (result : α) : Prop :=
  ∃ enough, ∀ fuel, enough ≤ fuel → run fuel = .ok result

/-- A computation has one result at most. -/
theorem Returns.unique {α : Type} {run : ℕ → Except Stop α} {a b : α} (ha : Returns run a)
    (hb : Returns run b) : a = b := by
  obtain ⟨n, hn⟩ := ha
  obtain ⟨m, hm⟩ := hb
  have heq := (hn (max n m) (le_max_left _ _)).symm.trans (hm (max n m) (le_max_right _ _))
  cases heq
  rfl

theorem Returns.map {α β : Type} {run : ℕ → Except Stop α} {a : α} (h : Returns run a)
    (f : α → β) : Returns (fun fuel => (run fuel).map f) (f a) := by
  obtain ⟨n, hn⟩ := h
  refine ⟨n, ?_⟩
  intro fuel hfuel
  simp only [hn fuel hfuel]
  rfl

def kFractionalIdentier : List Char := ['%', 'f']
def kFractionalIdentierSize : ℕ := 2

def getFractional (format_buffer : List Char) (pos : ℕ) : Fractional :=
  match format_buffer.getD (pos + kFractionalIdentierSize) '\x00' with
  | '3' => .Millisecond
  | '6' => .Microsecond
  | '9' => .Nanosecond
  | _ => .NanosecondDefault

/-! ## The fraction -/

namespace Fractional

def zeroes : Fractional → ℕ
  | .Millisecond => 3
  | .Microsecond => 6
  | .Nanosecond => 9
  | .NanosecondDefault => 9

def digitsToCut : Fractional → ℕ
  | .Millisecond => 1000000
  | .Microsecond => 1000
  | .Nanosecond => 1
  | .NanosecondDefault => 1

/-- How many characters follow `%f` in the directive. -/
def padding (type : Fractional) : ℕ := if type = .NanosecondDefault then 0 else 1

theorem zeroes_pos (type : Fractional) : 0 < type.zeroes := by
  cases type <;> decide

/-- The digits that are left and the ones that are cut are nine. -/
theorem digitsToCut_eq (type : Fractional) : type.digitsToCut = 10 ^ (9 - type.zeroes) := by
  cases type <;> rfl

theorem zeroes_le (type : Fractional) : type.zeroes ≤ 9 := by
  cases type <;> decide

end Fractional

/-- `std::to_string`. -/
def decimal (n : Int) : List Char :=
  if n < 0 then '-' :: Nat.toDigits 10 n.natAbs else Nat.toDigits 10 n.natAbs

/-- Subtraction of values of type `size_t`. -/
def sizeSub (a b : ℕ) : ℕ := (a + 2 ^ 64 - b) % 2 ^ 64

/-- The largest length of a `std::string`. -/
def max_size : ℕ := 2 ^ 63 - 1

/-- `std::string(count, ch)`, which throws if the string would be too long. -/
def fill (count : ℕ) (ch : Char) : Except Stop (List Char) :=
  if count ≤ max_size then .ok (List.replicate count ch) else .error .length_error

/-- The fraction of the second, in digits. No step leaves the range of the count: the
seconds are cut off towards zero. -/
def to_string (ts : Int) (fractional : Fractional) : Except Stop (List Char) :=
  let sec_duration := ts.tdiv 1000000000
  let ns := (ts - sec_duration * 1000000000).tdiv fractional.digitsToCut
  let value := decimal ns
  -- an `int` less a `size_t` is a `size_t`
  (fill (sizeSub fractional.zeroes value.length) '0').map (· ++ value)

/-- The digits of the fraction of a time at or after the epoch. -/
def fraction (ts : Int) (type : Fractional) : List Char :=
  padded type.zeroes ((ts % 1000000000).toNat / type.digitsToCut)

theorem fraction_value_lt (ts : Int) (type : Fractional) :
    (ts % 1000000000).toNat / type.digitsToCut < 10 ^ type.zeroes := by
  have hcut : 10 ^ type.zeroes * type.digitsToCut = 1000000000 := by
    cases type <;> rfl
  have hlt : (ts % 1000000000).toNat < 1000000000 := by omega
  rw [Nat.div_lt_iff_lt_mul (by cases type <;> decide), hcut]
  exact hlt

theorem length_fraction (ts : Int) (type : Fractional) :
    (fraction ts type).length = type.zeroes :=
  length_padded type.zeroes_pos (fraction_value_lt ts type)

theorem isDigit_of_mem_fraction {ts : Int} {type : Fractional} {c : Char}
    (hc : c ∈ fraction ts type) : c.isDigit = true :=
  isDigit_of_mem_padded hc

/-- A coarser fraction is the front of the nanoseconds. -/
theorem fraction_isPrefix (ts : Int) (type : Fractional) :
    fraction ts type <+: fraction ts .Nanosecond := by
  have h := padded_isPrefix type.zeroes_pos (9 - type.zeroes) (ts % 1000000000).toNat
  have hle := type.zeroes_le
  have hnine : type.zeroes + (9 - type.zeroes) = 9 := by omega
  rw [← type.digitsToCut_eq, hnine] at h
  simpa [fraction, Fractional.zeroes, Fractional.digitsToCut] using h

theorem map_eq_ok {α β : Type} {f : α → β} {x : Except Stop α} {b : β}
    (h : x.map f = .ok b) : ∃ a, x = .ok a ∧ f a = b := by
  cases x with
  | error stop => cases h
  | ok a =>
      cases h
      exact ⟨a, rfl, rfl⟩

theorem decimal_natCast (n : ℕ) : decimal n = Nat.toDigits 10 n := by
  simp [decimal]

/-- Padding is filled in as long as there is room for it. -/
theorem fill_of_length_le {zeroes length : ℕ} (hle : length ≤ zeroes) (hzeroes : zeroes ≤ 9)
    (ch : Char) :
    fill (sizeSub zeroes length) ch = .ok (List.replicate (zeroes - length) ch) := by
  have hcount : sizeSub zeroes length = zeroes - length := by
    simp only [sizeSub]
    omega
  have hmax : zeroes - length ≤ max_size := by
    simp only [max_size]
    omega
  rw [hcount, fill, if_pos hmax]

/-- What is left of a time when the seconds are cut off, where that is not negative. -/
theorem sub_tdiv_mul {ts : Int} (h : 0 ≤ ts ∨ 1000000000 ∣ ts) :
    ts - ts.tdiv 1000000000 * 1000000000 = ((ts % 1000000000).toNat : Int) := by
  have hdiv : ts.tdiv 1000000000 = ts / 1000000000 := by
    simp [Int.tdiv_eq_ediv, h]
  rw [hdiv]
  omega

theorem to_string_eq {ts : Int} (h : 0 ≤ ts ∨ 1000000000 ∣ ts) (type : Fractional) :
    to_string ts type = .ok (fraction ts type) := by
  have hvalue : decimal (((ts % 1000000000).toNat : Int).tdiv type.digitsToCut) =
      Nat.toDigits 10 ((ts % 1000000000).toNat / type.digitsToCut) := by
    rw [← Int.ofNat_tdiv, decimal_natCast]
  have hle := (Nat.length_toDigits_le_iff (b := 10) (by omega) type.zeroes_pos).mpr
    (fraction_value_lt ts type)
  simp only [to_string, sub_tdiv_mul h, hvalue, fill_of_length_le hle type.zeroes_le]
  rfl

/-- Before the epoch the rest of a broken second is negative, and so is its text. -/
theorem minus_mem_of_to_string {ts : Int} {text : List Char}
    (h : ¬ (0 ≤ ts ∨ 1000000000 ∣ ts)) (htext : to_string ts .Nanosecond = .ok text) :
    '-' ∈ text := by
  have hdiv : ts.tdiv 1000000000 = ts / 1000000000 + 1 := by
    simp [Int.tdiv_eq_ediv, h]
  have hneg :
      (ts - ts.tdiv 1000000000 * 1000000000).tdiv Fractional.Nanosecond.digitsToCut < 0 := by
    have hcut : (Fractional.Nanosecond.digitsToCut : Int) = 1 := rfl
    rw [hcut, Int.tdiv_one, hdiv]
    omega
  have hvalue : '-' ∈ decimal
      ((ts - ts.tdiv 1000000000 * 1000000000).tdiv Fractional.Nanosecond.digitsToCut) := by
    simp only [decimal, if_pos hneg]
    apply List.mem_cons_self
  simp only [to_string] at htext
  obtain ⟨zeroes, -, rfl⟩ := map_eq_ok htext
  exact List.mem_append_right _ hvalue

/-- What is promised of the fractions of a time: digits, as many as asked for, and the
coarser ones in front of the finer. -/
def Fractions (ts : Int) : Prop :=
  ∃ text : Fractional → List Char,
    (∀ type, to_string ts type = .ok (text type) ∧ (text type).length = type.zeroes ∧
      ∀ c ∈ text type, c.isDigit = true) ∧
    text .Millisecond <+: text .Nanosecond ∧ text .Microsecond <+: text .Nanosecond

/-- The fractions are right for the times that are not inside a second before the epoch. -/
theorem fractions_iff (ts : Int) : Fractions ts ↔ 0 ≤ ts ∨ 1000000000 ∣ ts := by
  constructor
  · intro h
    obtain ⟨text, htext, -, -⟩ := h
    by_contra hts
    have hminus := minus_mem_of_to_string hts (htext .Nanosecond).1
    have hdigit := (htext .Nanosecond).2.2 '-' hminus
    simp at hdigit
  · intro h
    refine ⟨fraction ts, ?_, fraction_isPrefix ts _, fraction_isPrefix ts _⟩
    intro type
    refine ⟨to_string_eq h type, length_fraction ts type, ?_⟩
    intro c hc
    exact isDigit_of_mem_fraction hc

/-- A nanosecond before the epoch has a minus sign among its digits. -/
theorem fractions_before_epoch : to_string (-1) .Nanosecond = .ok "0000000-1".toList ∧
    to_string (-100000000) .Nanosecond = .error .length_error ∧ ¬ Fractions (-1) := by
  refine ⟨by decide +kernel, by decide +kernel, ?_⟩
  intro h
  obtain ⟨text, htext, -, -⟩ := h
  have hminus := minus_mem_of_to_string (by omega) (htext .Nanosecond).1
  have hdigit := (htext .Nanosecond).2.2 '-' hminus
  simp at hdigit

/-! ## The loop -/

/-- The loop of `localtime_formatted_fractions` from a position on, for any texts of the
fractions. -/
def substituteFrom (to_string : Fractional → Except Stop (List Char)) :
    ℕ → List Char → ℕ → Except Stop (List Char)
  | 0, _, _ => .error .fuel
  | fuel + 1, format_buffer, pos =>
      match findFrom kFractionalIdentier format_buffer pos with
      | none => .ok format_buffer
      | some pos =>
          let type := getFractional format_buffer pos
          match to_string type with
          | .error stop => .error stop
          | .ok value =>
              let identifierExtraSize := 0
              substituteFrom to_string fuel
                (replace format_buffer pos (kFractionalIdentierSize + type.padding) value)
                (pos + kFractionalIdentierSize + identifierExtraSize)

def localtime_formatted_fractions (fuel : ℕ) (ts : Int) (format_buffer : List Char) :
    Except Stop (List Char) :=
  substituteFrom (to_string ts) fuel format_buffer 0

/-- The kind of fraction a directive asks for, by the character behind `%f`. -/
def kindOf : Option Char → Fractional
  | some '3' => .Millisecond
  | some '6' => .Microsecond
  | some '9' => .Nanosecond
  | _ => .NanosecondDefault

/-- A format read once from the left, with a text in place of each `%f`, `%f3`, `%f6` and
`%f9`. -/
def substitute (value : Fractional → List Char) : List Char → List Char
  | '%' :: 'f' :: '3' :: rest => value .Millisecond ++ substitute value rest
  | '%' :: 'f' :: '6' :: rest => value .Microsecond ++ substitute value rest
  | '%' :: 'f' :: '9' :: rest => value .Nanosecond ++ substitute value rest
  | '%' :: 'f' :: rest => value .NanosecondDefault ++ substitute value rest
  | c :: rest => c :: substitute value rest
  | [] => []

/-- Texts that a fraction can have: two digits or more. -/
structure Digits (value : Fractional → List Char) : Prop where
  two_le : ∀ type, 2 ≤ (value type).length
  isDigit : ∀ type, ∀ c ∈ value type, c.isDigit = true

variable {value : Fractional → List Char}

theorem Digits.percent_notMem (h : Digits value) (type : Fractional) : '%' ∉ value type := by
  intro hmem
  have hdigit := h.isDigit type _ hmem
  simp at hdigit

theorem Digits.exists_cons (h : Digits value) (type : Fractional) :
    ∃ d rest, value type = d :: rest ∧ d.isDigit = true := by
  cases heq : value type with
  | nil =>
      have hle := h.two_le type
      simp [heq] at hle
  | cons d rest => exact ⟨d, rest, rfl, h.isDigit type d (by simp [heq])⟩

theorem digits_fraction (ts : Int) : Digits (fraction ts) := by
  constructor
  · intro type
    rw [length_fraction]
    cases type <;> decide
  · intro type c hc
    exact isDigit_of_mem_fraction hc

/-- One turn of the scan at a directive. -/
theorem substitute_identifier (rest : List Char) :
    substitute value ('%' :: 'f' :: rest) =
      value (kindOf rest.head?) ++
        substitute value (rest.drop (kindOf rest.head?).padding) := by
  cases rest with
  | nil => simp [substitute, kindOf, Fractional.padding]
  | cons d rest =>
      by_cases h3 : d = '3'
      · simp [h3, substitute, kindOf, Fractional.padding]
      by_cases h6 : d = '6'
      · simp [h6, substitute, kindOf, Fractional.padding]
      by_cases h9 : d = '9'
      · simp [h9, substitute, kindOf, Fractional.padding]
      · have hkind : kindOf (some d) = .NanosecondDefault := by
          simp [kindOf, h3, h6, h9]
        simp [hkind, substitute, Fractional.padding, h3, h6, h9]

/-- Where no directive begins, the scan copies. -/
theorem substitute_cons {c : Char} {rest : List Char}
    (h : ¬ kFractionalIdentier <+: c :: rest) :
    substitute value (c :: rest) = c :: substitute value rest := by
  rw [substitute]
  all_goals
    intros
    simp_all [kFractionalIdentier]

theorem substitute_of_find_eq_none {text : List Char}
    (h : find kFractionalIdentier text = none) : substitute value text = text := by
  induction text with
  | nil => rfl
  | cons c text ih =>
      have hhead : ¬ kFractionalIdentier <+: c :: text := by
        apply not_isPrefix_of_find_cons
        simp [h]
      rw [find_cons hhead, Option.map_eq_none_iff] at h
      rw [substitute_cons hhead, ih h]

/-- Everything in front of the first directive is copied. -/
theorem substitute_of_find {text : List Char} {i : ℕ}
    (h : find kFractionalIdentier text = some i) :
    substitute value text = text.take i ++ substitute value (text.drop i) := by
  induction text generalizing i with
  | nil => simp
  | cons c text ih =>
      cases i with
      | zero => simp
      | succ i =>
          have hhead : ¬ kFractionalIdentier <+: c :: text := by
            apply not_isPrefix_of_find_cons
            simp [h]
          rw [find_cons hhead] at h
          have hrest : find kFractionalIdentier text = some i := by
            simpa using h
          rw [substitute_cons hhead, ih hrest]
          rfl

theorem getFractional_append (front rest : List Char) :
    getFractional (front ++ '%' :: 'f' :: rest) front.length = kindOf rest.head? := by
  cases rest with
  | nil => simp [getFractional, kFractionalIdentierSize, kindOf]
  | cons d rest =>
      have hget : (front ++ '%' :: 'f' :: d :: rest).getD (front.length + 2) '\x00' = d := by
        simp [List.getD]
      simp only [getFractional, kFractionalIdentierSize, hget, List.head?_cons, kindOf]
      split <;> simp_all

/-- The digits put in hold no percent sign, so the search goes on behind them although it
starts among them. Each turn uses up a directive of what is left. -/
theorem substituteFrom_eq (hvalue : Digits value)
    {to_string : Fractional → Except Stop (List Char)}
    (hto : ∀ type, to_string type = .ok (value type)) {fuel pos : ℕ} {out rest : List Char}
    (hfuel : rest.length < fuel) (hpos : pos ≤ out.length) (hout : '%' ∉ out.drop pos) :
    substituteFrom to_string fuel (out ++ rest) pos = .ok (out ++ substitute value rest) := by
  induction fuel generalizing out rest pos with
  | zero => omega
  | succ fuel ih =>
      rw [substituteFrom, kFractionalIdentier, findFrom_append rest hpos hout]
      cases hfind : find ['%', 'f'] rest with
      | none => simp [substitute_of_find_eq_none hfind]
      | some i =>
          obtain ⟨front, tail, rfl, rfl⟩ := exists_of_find hfind
          change find kFractionalIdentier (front ++ '%' :: 'f' :: tail) = some front.length at hfind
          let type := kindOf tail.head?
          have hscan : substitute value (front ++ '%' :: 'f' :: tail) =
              front ++ value type ++ substitute value (tail.drop type.padding) := by
            rw [substitute_of_find hfind]
            simp [substitute_identifier, type]
          have htype : getFractional (out ++ (front ++ '%' :: 'f' :: tail))
              (out.length + front.length) = type := by
            rw [← List.append_assoc, ← List.length_append, getFractional_append]
          have hreplace : replace (out ++ (front ++ '%' :: 'f' :: tail)) (out.length + front.length)
              (kFractionalIdentierSize + type.padding) (value type) =
                out ++ front ++ value type ++ tail.drop type.padding := by
            rw [← List.append_assoc, ← List.length_append, replace_append, ← List.drop_drop]
            rfl
          have hbehind : '%' ∉ (out ++ front ++ value type).drop
              (out.length + front.length + kFractionalIdentierSize + 0) := by
            intro hmem
            rw [Nat.add_zero, ← List.length_append, List.drop_length_add_append] at hmem
            exact hvalue.percent_notMem type (List.mem_of_mem_drop hmem)
          have hsize := hvalue.two_le type
          have hlength : (tail.drop type.padding).length < fuel := by
            simp only [List.length_append, List.length_cons] at hfuel
            simp only [List.length_drop]
            omega
          simp only [List.cons_append, List.nil_append, Option.map_some, htype, hto, hreplace]
          rw [ih hlength (by simp [kFractionalIdentierSize]; omega) hbehind, hscan]
          simp

/-- Behind a percent sign that is copied, no new `f` appears. -/
theorem head_of_substitute (hvalue : Digits value) {text : List Char}
    (h : (substitute value text).head? = some 'f') : text.head? = some 'f' := by
  cases text with
  | nil => cases h
  | cons c rest =>
      by_cases hid : kFractionalIdentier <+: c :: rest
      · obtain ⟨tail, htail⟩ := hid
        obtain ⟨d, digits, hd, hdigit⟩ := hvalue.exists_cons (kindOf tail.head?)
        rw [← htail] at h
        simp only [kFractionalIdentier, List.cons_append, List.nil_append,
          substitute_identifier, hd, List.head?_cons, Option.some.injEq] at h
        simp [h] at hdigit
      · rw [substitute_cons hid] at h
        exact h

theorem find_value_append (hvalue : Digits value) (type : Fractional) {text : List Char}
    (h : find kFractionalIdentier text = none) :
    find kFractionalIdentier (value type ++ text) = none := by
  rw [kFractionalIdentier] at h ⊢
  rw [find_append _ _ (hvalue.percent_notMem type), h]
  rfl

/-- A text with digits in place of the directives holds no directive. -/
theorem find_substitute (hvalue : Digits value) (text : List Char) :
    find kFractionalIdentier (substitute value text) = none := by
  fun_induction substitute value text with
  | case1 rest ih | case2 rest ih | case3 rest ih | case4 rest _ _ _ ih =>
      exact find_value_append hvalue _ ih
  | case5 c rest _ _ _ hplain ih =>
      have hhead : ¬ kFractionalIdentier <+: c :: substitute value rest := by
        intro hid
        simp only [kFractionalIdentier, List.cons_prefix_cons] at hid
        obtain ⟨rfl, hf⟩ := hid
        obtain ⟨tail, htail⟩ := hf
        have hsome : (substitute value rest).head? = some 'f' := by simp [← htail]
        have hrest := head_of_substitute hvalue hsome
        obtain ⟨after, rfl⟩ := List.head?_eq_some_iff.mp hrest
        exact hplain after rfl rfl
      rw [find_cons hhead, ih]
      rfl
  | case6 => rfl

/-- Enough fuel is one turn more than the format has characters. -/
theorem returns_fractions {ts : Int} (h : 0 ≤ ts) (format_buffer : List Char) :
    Returns (fun fuel => localtime_formatted_fractions fuel ts format_buffer)
      (substitute (fraction ts) format_buffer) := by
  refine ⟨format_buffer.length + 1, ?_⟩
  intro fuel hfuel
  have hnil : '%' ∉ ([] : List Char).drop 0 := List.not_mem_nil
  exact substituteFrom_eq (digits_fraction ts) (to_string_eq (.inl h)) hfuel (Nat.zero_le _) hnil

/-- At or after the epoch the loop ends, with the format read once from the left, each
`%f`, `%f3`, `%f6` and `%f9` in it replaced by the fraction in as many digits as it asks
for. No `%f` is left. -/
theorem fractions_substituted {ts : Int} (h : 0 ≤ ts) (format_buffer : List Char) :
    (∀ type, to_string ts type = .ok (fraction ts type) ∧
      (fraction ts type).length = type.zeroes ∧ ∀ c ∈ fraction ts type, c.isDigit = true) ∧
    Returns (fun fuel => localtime_formatted_fractions fuel ts format_buffer)
      (substitute (fraction ts) format_buffer) ∧
    ¬ kFractionalIdentier <:+: substitute (fraction ts) format_buffer := by
  refine ⟨?_, returns_fractions h format_buffer, ?_⟩
  · intro type
    refine ⟨to_string_eq (.inl h) type, length_fraction ts type, ?_⟩
    intro c hc
    exact isDigit_of_mem_fraction hc
  · exact find_eq_none_iff.mp (find_substitute (digits_fraction ts) format_buffer)

/-- The search meets the digits of one fraction before the next directive. -/
theorem fractions_substituted_twice :
    ¬ kFractionalIdentier <:+: substitute (fraction 1002003004) "%S.%f3|%%f%f9".toList ∧
    localtime_formatted_fractions 15 1002003004 "%S.%f3|%%f%f9".toList =
      .ok "%S.002|%002003004002003004".toList := by
  refine ⟨?_, by decide +kernel⟩
  exact (fractions_substituted (by omega) _).2.2

/-! ## Escaped percent signs -/

/-- A format read as `strftime` reads it: `%%` is a percent sign, and what follows it is
text. -/
def substituteDirectives (value : Fractional → List Char) : List Char → List Char
  | '%' :: '%' :: rest => '%' :: '%' :: substituteDirectives value rest
  | '%' :: 'f' :: '3' :: rest => value .Millisecond ++ substituteDirectives value rest
  | '%' :: 'f' :: '6' :: rest => value .Microsecond ++ substituteDirectives value rest
  | '%' :: 'f' :: '9' :: rest => value .Nanosecond ++ substituteDirectives value rest
  | '%' :: 'f' :: rest => value .NanosecondDefault ++ substituteDirectives value rest
  | c :: rest => c :: substituteDirectives value rest
  | [] => []

/-- A `%%` is followed by an `f`. -/
def escapedF : List Char → Bool
  | '%' :: '%' :: rest => rest.head? == some 'f' || escapedF rest
  | _ :: rest => escapedF rest
  | [] => false

theorem substitute_percent_ne (hvalue : Digits value) (tail rest : List Char) :
    substitute value ('%' :: '%' :: 'f' :: tail) ≠ '%' :: '%' :: rest := by
  have hhead : ¬ kFractionalIdentier <+: '%' :: '%' :: 'f' :: tail := by
    simp [kFractionalIdentier]
  obtain ⟨d, digits, hd, hdigit⟩ := hvalue.exists_cons (kindOf tail.head?)
  rw [substitute_cons hhead, substitute_identifier, hd]
  intro heq
  simp only [List.cons_append, List.cons.injEq, true_and] at heq
  simp [heq.1] at hdigit

/-- The two readings agree as long as no escaped percent sign stands before an `f`. -/
theorem substitute_eq_iff (hvalue : Digits value) (text : List Char) :
    substitute value text = substituteDirectives value text ↔ escapedF text = false := by
  fun_induction substituteDirectives value text with
  | case1 rest ih =>
      by_cases hf : rest.head? = some 'f'
      · obtain ⟨tail, rfl⟩ := List.head?_eq_some_iff.mp hf
        simp [substitute_percent_ne hvalue, escapedF]
      · have hfirst : ¬ kFractionalIdentier <+: '%' :: '%' :: rest := by
          simp [kFractionalIdentier]
        have hsecond : ¬ kFractionalIdentier <+: '%' :: rest := by
          intro hid
          obtain ⟨tail, htail⟩ := hid
          simp only [kFractionalIdentier, List.cons_append, List.cons.injEq, true_and] at htail
          simp [← htail] at hf
        rw [substitute_cons hfirst, substitute_cons hsecond]
        simp [escapedF, hf, ih]
  | case2 rest ih | case3 rest ih | case4 rest ih | case5 rest _ _ _ ih =>
      simp [substitute, escapedF, ih]
  | case6 c rest hpercent _ _ _ hf ih =>
      have hhead : ¬ kFractionalIdentier <+: c :: rest := by
        intro hid
        obtain ⟨tail, htail⟩ := hid
        simp only [kFractionalIdentier, List.cons_append, List.nil_append,
          List.cons.injEq] at htail
        exact hf tail htail.1.symm htail.2.symm
      rw [substitute_cons hhead, escapedF]
      · simp [ih]
      · exact hpercent
  | case7 => simp [substitute, escapedF]

/-! ## The formatted time -/

/-- What is used of the C library. -/
structure CTime (Tm : Type) where
  /-- A count of seconds as a local time. -/
  localtime_r : Int → Tm
  /-- The text of a format, before it is put into a buffer. -/
  strftime : Tm → List Char → List Char

/-- `strftime` renders `%%` as a percent sign and copies ordinary characters. -/
structure CTime.Plain {Tm : Type} (clib : CTime Tm) : Prop where
  nil : ∀ t, clib.strftime t [] = []
  percent : ∀ t rest, clib.strftime t ('%' :: '%' :: rest) = '%' :: clib.strftime t rest
  ordinary : ∀ t c rest, c ≠ '%' → clib.strftime t (c :: rest) = c :: clib.strftime t rest

/-- A string up to its first NUL, as `c_str` passes it on. -/
def cstr (text : List Char) : List Char := text.takeWhile (· ≠ '\x00')

/-- `strftime` into a buffer of 1024 characters. It returns 0 if there is no room for the
text and its NUL, and then the format stands in for the text, once the assert is compiled
out. -/
def put_time {Tm : Type} (clib : CTime Tm) (tmb : Tm) (c_time_format : List Char) : List Char :=
  let size := 1024
  let buffer := clib.strftime tmb c_time_format
  let success := if buffer.length < size then buffer.length else 0
  if success = 0 then c_time_format else cstr buffer

def localtime_formatted {Tm : Type} (clib : CTime Tm) (fuel : ℕ) (ts : Int)
    (time_format : List Char) : Except Stop (List Char) :=
  (localtime_formatted_fractions fuel ts time_format).map fun format_buffer =>
    put_time clib (clib.localtime_r (ts.tdiv 1000000000)) (cstr format_buffer)

/-- The text that a format of ordinary characters, escaped percent signs and fractions stands
for. -/
def literalText (value : Fractional → List Char) : List Char → Option (List Char)
  | '%' :: '%' :: rest => (literalText value rest).map ('%' :: ·)
  | '%' :: 'f' :: '3' :: rest => (literalText value rest).map (value .Millisecond ++ ·)
  | '%' :: 'f' :: '6' :: rest => (literalText value rest).map (value .Microsecond ++ ·)
  | '%' :: 'f' :: '9' :: rest => (literalText value rest).map (value .Nanosecond ++ ·)
  | '%' :: 'f' :: rest => (literalText value rest).map (value .NanosecondDefault ++ ·)
  | '%' :: _ => none
  | c :: rest => (literalText value rest).map (c :: ·)
  | [] => some []

/-- What is promised of escaped percent signs: the fractions stand where `strftime` reads a
directive, and a format without other directives is rendered to its text. -/
def Escaped {Tm : Type} (clib : CTime Tm) (ts : Int) (time_format : List Char) : Prop :=
  Returns (fun fuel => localtime_formatted_fractions fuel ts time_format)
    (substituteDirectives (fraction ts) time_format) ∧
  ∀ text, literalText (fraction ts) time_format = some text → '\x00' ∉ time_format →
    0 < text.length → text.length < 1024 →
      Returns (fun fuel => localtime_formatted clib fuel ts time_format) text

theorem strftime_digits {Tm : Type} {clib : CTime Tm} (hclib : clib.Plain) (t : Tm)
    {digits : List Char} (hdigits : '%' ∉ digits) (rest : List Char) :
    clib.strftime t (digits ++ rest) = digits ++ clib.strftime t rest := by
  induction digits with
  | nil => rfl
  | cons d digits ih =>
      have hd : d ≠ '%' := by
        intro heq
        simp [heq] at hdigits
      have hrest : '%' ∉ digits := by
        intro hmem
        simp [hmem] at hdigits
      rw [List.cons_append, hclib.ordinary t d _ hd, ih hrest, List.cons_append]

theorem strftime_literal {Tm : Type} {clib : CTime Tm} (hclib : clib.Plain)
    (hvalue : Digits value) (t : Tm) {format text : List Char}
    (h : literalText value format = some text) :
    clib.strftime t (substituteDirectives value format) = text := by
  fun_induction literalText value format generalizing text with
  | case1 rest ih =>
      obtain ⟨text, htext, rfl⟩ := Option.map_eq_some_iff.mp h
      rw [substituteDirectives, hclib.percent, ih htext]
  | case2 rest ih | case3 rest ih | case4 rest ih =>
      obtain ⟨text, htext, rfl⟩ := Option.map_eq_some_iff.mp h
      rw [substituteDirectives, strftime_digits hclib t (hvalue.percent_notMem _), ih htext]
  | case5 rest _ _ _ ih =>
      obtain ⟨text, htext, rfl⟩ := Option.map_eq_some_iff.mp h
      rw [substituteDirectives, strftime_digits hclib t (hvalue.percent_notMem _), ih htext]
      all_goals assumption
  | case6 => cases h
  | case7 c rest _ _ _ _ _ hc ih =>
      obtain ⟨text, htext, rfl⟩ := Option.map_eq_some_iff.mp h
      rw [substituteDirectives, hclib.ordinary t c _ hc, ih htext]
      all_goals assumption
  | case8 =>
      cases h
      exact hclib.nil t

theorem nul_notMem_digits (hvalue : Digits value) (type : Fractional) : '\x00' ∉ value type := by
  intro hmem
  have hdigit := hvalue.isDigit type _ hmem
  simp at hdigit

/-- A NUL in the format is the only one there can be. -/
theorem nul_notMem_substituteDirectives (hvalue : Digits value) {format : List Char}
    (h : '\x00' ∉ format) : '\x00' ∉ substituteDirectives value format := by
  fun_induction substituteDirectives value format with
  | case1 rest ih => simp_all
  | case2 rest ih | case3 rest ih | case4 rest ih | case5 rest _ _ _ ih =>
      have hrest : '\x00' ∉ rest := by simp_all
      rw [List.mem_append, not_or]
      exact ⟨nul_notMem_digits hvalue _, ih hrest⟩
  | case6 c rest _ _ _ _ _ ih => simp_all
  | case7 => exact h

theorem nul_notMem_literalText (hvalue : Digits value) {format text : List Char}
    (h : '\x00' ∉ format) (htext : literalText value format = some text) : '\x00' ∉ text := by
  fun_induction literalText value format generalizing text with
  | case1 rest ih =>
      obtain ⟨text, hrendered, rfl⟩ := Option.map_eq_some_iff.mp htext
      have hrest : '\x00' ∉ rest := by simp_all
      simp [ih hrest hrendered]
  | case2 rest ih | case3 rest ih | case4 rest ih | case5 rest _ _ _ ih =>
      obtain ⟨text, hrendered, rfl⟩ := Option.map_eq_some_iff.mp htext
      have hrest : '\x00' ∉ rest := by simp_all
      rw [List.mem_append, not_or]
      exact ⟨nul_notMem_digits hvalue _, ih hrest hrendered⟩
  | case6 => cases htext
  | case7 c rest _ _ _ _ _ _ ih =>
      obtain ⟨text, hrendered, rfl⟩ := Option.map_eq_some_iff.mp htext
      rw [List.mem_cons, not_or] at h ⊢
      exact ⟨h.1, ih h.2 hrendered⟩
  | case8 =>
      cases htext
      exact h

theorem cstr_eq_self {text : List Char} (h : '\x00' ∉ text) : cstr text = text := by
  rw [cstr, List.takeWhile_eq_self_iff]
  intro c hc
  have hne : c ≠ '\x00' := by
    intro heq
    exact h (heq ▸ hc)
  simpa using hne

/-- A text that fits into the buffer is returned. -/
theorem put_time_eq {Tm : Type} {clib : CTime Tm} {t : Tm} {format text : List Char}
    (htext : clib.strftime t format = text) (hnul : '\x00' ∉ text) (hpos : 0 < text.length)
    (hlt : text.length < 1024) : put_time clib t format = text := by
  have hne : text ≠ [] := List.length_pos_iff.mp hpos
  simp [put_time, htext, hlt, hne, cstr_eq_self hnul]

/-- Escaped percent signs survive in the formats that have none before an `f`. -/
theorem escaped_iff {Tm : Type} {clib : CTime Tm} (hclib : clib.Plain) {ts : Int} (h : 0 ≤ ts)
    (time_format : List Char) : Escaped clib ts time_format ↔ escapedF time_format = false := by
  have hvalue := digits_fraction ts
  have hreturns := returns_fractions h time_format
  constructor
  · intro hescaped
    exact (substitute_eq_iff hvalue time_format).mp (hreturns.unique hescaped.1)
  · intro hf
    rw [(substitute_eq_iff hvalue time_format).mpr hf] at hreturns
    refine ⟨hreturns, ?_⟩
    intro text htext hnul hpos hlt
    have hformatted := hreturns.map fun format_buffer =>
      put_time clib (clib.localtime_r (ts.tdiv 1000000000)) (cstr format_buffer)
    have hbuffer := strftime_literal hclib hvalue (clib.localtime_r (ts.tdiv 1000000000)) htext
    rw [cstr_eq_self (nul_notMem_substituteDirectives hvalue hnul),
      put_time_eq hbuffer (nul_notMem_literalText hvalue hnul htext) hpos hlt] at hformatted
    exact hformatted

/-- `strftime` on formats that hold no directive but `%%`. -/
def unescape : List Char → List Char
  | '%' :: '%' :: rest => '%' :: unescape rest
  | c :: rest => c :: unescape rest
  | [] => []

def CTime.unescaping : CTime Unit where
  localtime_r _ := ()
  strftime _ := unescape

theorem CTime.plain_unescaping : CTime.unescaping.Plain := by
  constructor
  · intro t
    rfl
  · intro t rest
    rfl
  · intro t c rest hc
    simp [CTime.unescaping, unescape, hc]

theorem escaped_unescaping :
    localtime_formatted_fractions 12 5000000 "100%% %f3".toList = .ok "100%% 005".toList ∧
    localtime_formatted CTime.unescaping 12 5000000 "100%% %f3".toList = .ok "100% 005".toList ∧
    Escaped CTime.unescaping 5000000 "100%% %f3".toList := by
  refine ⟨by decide +kernel, by decide +kernel, ?_⟩
  exact (escaped_iff CTime.plain_unescaping (by omega) _).mpr (by decide +kernel)

/-- The escaped `%%f` becomes a percent sign in front of a fraction. -/
theorem escaped_percent_lost :
    localtime_formatted_fractions 4 0 "%%f".toList = .ok "%000000000".toList ∧
    literalText (fraction 0) "%%f".toList = some "%f".toList ∧
    ¬ Escaped CTime.unescaping 0 "%%f".toList := by
  refine ⟨by decide +kernel, by decide +kernel, ?_⟩
  intro h
  have hreturns := returns_fractions (le_refl 0) "%%f".toList
  have heq := h.1.unique hreturns
  revert heq
  decide +kernel

end G3log.Time
