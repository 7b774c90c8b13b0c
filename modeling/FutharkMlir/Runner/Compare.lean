import FutharkMlir.Runner.Scalars
import FutharkMlir.Syntax.Primitive
import FutharkMlir.Lib.Rounding
import Mathlib.Algebra.Order.Ring.Rat
import Mathlib.Algebra.Order.Group.Abs
import Mathlib.Tactic.NormNum

/-! How the test runner compares a run's output with the expected text, and when a passing
test of integers means equal integers. -/
namespace FutharkMlir

open Pattern (many many1)

def resultPattern : Pattern Text := do
  let _ ← many Text.isSpace
  let _ ← Pattern.text "result[".toList
  let _ ← many1 Text.isDigit
  let _ ← Pattern.text "]:".toList
  let _ ← many Text.isSpace
  many (· != '\n')

/-- What a line prints behind `result[i]:`, if it is such a line. -/
def resultLine (line : Text) : Option Text := resultPattern.matchStart line

/-- The part behind the first `=`, or everything. -/
def afterEquals (payload : Text) : Text :=
  match payload.dropWhile (· != '=') with
  | [] => payload
  | _ :: rest => rest

def unbracket (c : Char) : Char := if c == '[' || c == ']' then ' ' else c

def payloadValues (payload : Text) : List Text :=
  Text.split ((afterEquals payload).map unbracket)

/-- The loop of `_iree_output_values`; a buffer view is printed on the line below. -/
def resultValues : List Text → Except Failure (List Text)
  | [] => return []
  | line :: lines =>
    match resultLine line with
    | none => resultValues lines
    | some payload =>
      if "hal.buffer_view".toList <+: payload then
        match lines with
        | [] => .error .indexError
        | next :: lines => do
          let rest ← resultValues lines
          return payloadValues next.strip ++ rest
      else do
        let rest ← resultValues lines
        return payloadValues payload ++ rest

def ireeOutputValues (stdout : Text) : Except Failure (List Text) :=
  resultValues (Text.splitLines stdout)

/-- The characters that `_expected_values` blanks out. -/
def isMark (c : Char) : Bool := c == '[' || c == ']' || c == ',' || c == '{' || c == '}'

def expectedValues (block : Text) : Except Failure (List Text) :=
  (Text.split (block.map fun c => if isMark c then ' ' else c)).mapM stripSuffix

/-- The double that `1e-5` stands for. -/
def relTol : Rat := 5902958103587057 / 2 ^ 69

/-- The double that `1e-6` stands for. -/
def absTol : Rat := 4722366482869645 / 2 ^ 72

/-- `math.isclose`, without the rounding of its own arithmetic. -/
def isClose : FloatLit → FloatLit → Bool
  | .finite a, .finite b => decide (|a - b| ≤ max (relTol * max |a| |b|) absTol)
  | .inf m, .inf n => m == n
  | _, _ => false

/-- One step of `_values_match`; `float` is Python's, which may reject a token. -/
def tokensMatch (float : Text → Option FloatLit) (p : Text × Text) : Bool :=
  match float p.1, float p.2 with
  | some a, some e => isClose a e
  | _, _ => p.1 == p.2

def valuesMatch (float : Text → Option FloatLit) (actual expected : List Text) : Bool :=
  if actual.length ≠ expected.length then false
  else (actual.zip expected).all (tokensMatch float)

/-- The comparison at the end of `_run_case`. -/
def outputMatches (float : Text → Option FloatLit) (stdout block : Text) :
    Except Failure Bool := do
  let actual ← ireeOutputValues stdout
  let expected ← expectedValues block
  return valuesMatch float actual expected

/-- A payload prints integers, with brackets and blanks around them. -/
def PayloadInts (payload : Text) (vs : List Int) : Prop :=
  ∃ toks, Text.Spaced (fun c => Text.isSpace c || c == '[' || c == ']') toks
    (afterEquals payload) ∧ List.Forall₂ Text.IsNumeral toks vs

/-- The result lines of a run print integers; all other lines are free. -/
inductive PrintsInts : List Text → List Int → Prop
  | nil : PrintsInts [] []
  | other {line : Text} {lines : List Text} {vs : List Int} : resultLine line = none →
      PrintsInts lines vs → PrintsInts (line :: lines) vs
  | inline {line payload : Text} {lines : List Text} {vs ws : List Int} :
      resultLine line = some payload → ¬ "hal.buffer_view".toList <+: payload →
      PayloadInts payload vs → PrintsInts lines ws → PrintsInts (line :: lines) (vs ++ ws)
  | buffer {line payload next : Text} {lines : List Text} {vs ws : List Int} :
      resultLine line = some payload → "hal.buffer_view".toList <+: payload →
      PayloadInts next.strip vs → PrintsInts lines ws →
      PrintsInts (line :: next :: lines) (vs ++ ws)

inductive IsIntLiteral : Text → Int → Prop
  | bare {t : Text} {v : Int} : Text.IsNumeral t v → IsIntLiteral t v
  | typed {t w : Text} {v : Int} {k : Char} : Text.IsNumeral t v → k = 'i' ∨ k = 'u' →
      Text.IsDecimal w → IsIntLiteral (t ++ k :: w) v

/-- An expected text made of integer literals, nested in brackets in any way. -/
def ExpectsInts (block : Text) (vs : List Int) : Prop :=
  ∃ toks, Text.Spaced (fun c => Text.isSpace c || isMark c) toks block ∧
    List.Forall₂ IsIntLiteral toks vs

theorem payloadValues_ints {payload : Text} {vs : List Int} (h : PayloadInts payload vs) :
    List.Forall₂ Text.IsNumeral (payloadValues payload) vs := by
  obtain ⟨toks, spaced, numerals⟩ := h
  have blank : Text.Spaced Text.isSpace toks ((afterEquals payload).map unbracket) := by
    apply spaced.map
    · intro c hc
      by_cases mark : (c == '[' || c == ']') = true
      · simp only [unbracket, mark, if_true]
        rfl
      · simp only [unbracket, mark]
        simpa [Bool.or_assoc, mark] using hc
    · intro c hc
      simp only [Bool.or_eq_false_iff] at hc
      simp [unbracket, hc.1, hc.2]
  rw [payloadValues, blank.split]
  exact numerals

theorem resultValues_ints {lines : List Text} {vs : List Int} (h : PrintsInts lines vs) :
    ∃ toks, resultValues lines = .ok toks ∧ List.Forall₂ Text.IsNumeral toks vs := by
  induction h with
  | nil => exact ⟨[], rfl, .nil⟩
  | other free _ ih =>
    obtain ⟨toks, run, numerals⟩ := ih
    refine ⟨toks, ?_, numerals⟩
    unfold resultValues
    simp only [free, run]
  | @inline line payload lines vs ws result plain ints _ ih =>
    obtain ⟨toks, run, numerals⟩ := ih
    refine ⟨payloadValues payload ++ toks, ?_, List.rel_append (payloadValues_ints ints) numerals⟩
    unfold resultValues
    simp only [result, plain, if_false, run]
    rfl
  | @buffer line payload next lines vs ws result view ints _ ih =>
    obtain ⟨toks, run, numerals⟩ := ih
    refine ⟨payloadValues next.strip ++ toks, ?_,
      List.rel_append (payloadValues_ints ints) numerals⟩
    unfold resultValues
    simp only [result, view, if_true, run]
    rfl

theorem isNumber_numeral {t : Text} {v : Int} (h : Text.IsNumeral t v) : IsNumber t := by
  cases h with
  | @plain ds digits =>
    have whole := IsNumber.whole (.inl rfl) (isDigits_decimal digits)
    rw [List.append_nil] at whole
    exact whole
  | @minus ds digits =>
    have whole := IsNumber.whole (.inr rfl) (isDigits_decimal digits)
    rw [List.append_nil] at whole
    exact whole

theorem stripSuffix_int {tok : Text} {v : Int} (h : IsIntLiteral tok v) :
    ∃ t, stripSuffix tok = .ok t ∧ Text.IsNumeral t v := by
  cases h with
  | bare numeral =>
    have strip := stripSuffix_number (isNumber_numeral numeral) (.inl rfl)
    rw [List.append_nil] at strip
    exact ⟨tok, strip, numeral⟩
  | @typed t ds v k numeral kind width =>
    have letter : k = 'i' ∨ k = 'u' ∨ k = 'f' := by
      rcases kind with rfl | rfl <;> simp
    have suffix : IsSuffix (k :: ds) := .width letter (isDigits_decimal width)
    exact ⟨t, stripSuffix_number (isNumber_numeral numeral) (.inr suffix), numeral⟩

theorem mapM_stripSuffix {toks : List Text} {vs : List Int}
    (h : List.Forall₂ IsIntLiteral toks vs) :
    ∃ ts, toks.mapM stripSuffix = .ok ts ∧ List.Forall₂ Text.IsNumeral ts vs := by
  induction h with
  | nil => exact ⟨[], rfl, .nil⟩
  | cons literal _ ih =>
    obtain ⟨t, strip, numeral⟩ := stripSuffix_int literal
    obtain ⟨ts, strips, numerals⟩ := ih
    refine ⟨t :: ts, ?_, .cons numeral numerals⟩
    simp [List.mapM_cons, strip, strips, bind, Except.bind, pure, Except.pure]

theorem expectedValues_ints {block : Text} {vs : List Int} (h : ExpectsInts block vs) :
    ∃ ts, expectedValues block = .ok ts ∧ List.Forall₂ Text.IsNumeral ts vs := by
  obtain ⟨toks, spaced, literals⟩ := h
  have blank : Text.Spaced Text.isSpace toks
      (block.map fun c => if isMark c then ' ' else c) := by
    apply spaced.map
    · intro c hc
      by_cases mark : isMark c = true
      · simp only [mark, if_true]
        rfl
      · simpa [mark] using hc
    · intro c hc
      simp only [Bool.or_eq_false_iff] at hc
      simp [hc]
  rw [expectedValues, blank.split]
  exact mapM_stripSuffix literals

section Match

variable {float : Text → Option FloatLit} {conv : Int → Rat}

/-- Two integers that the comparison takes for the same. -/
def Near (conv : Int → Rat) (v w : Int) : Prop :=
  |conv v - conv w| ≤ max (relTol * max |conv v| |conv w|) absTol

instance (conv : Int → Rat) (v w : Int) : Decidable (Near conv v w) :=
  inferInstanceAs (Decidable (_ ≤ _))

def Close (conv : Int → Rat) (vs ws : List Int) : Prop :=
  vs.length = ws.length ∧ ∀ p ∈ vs.zip ws, Near conv p.1 p.2

instance (conv : Int → Rat) (vs ws : List Int) : Decidable (Close conv vs ws) :=
  inferInstanceAs (Decidable (_ ∧ _))

theorem near_self (conv : Int → Rat) (v : Int) : Near conv v v := by
  have tol : (0 : Rat) ≤ absTol := by decide +kernel
  simp only [Near, sub_self, abs_zero]
  exact le_max_of_le_right tol

theorem abs_natAbs (v : Int) : |(v : Rat)| = v.natAbs := by
  rw [Nat.cast_natAbs, Int.cast_abs]

/-- A bound on one of two integers, and they are told apart. -/
theorem near_bound {v w : Int} (small : w.natAbs ≤ 99998) (ne : v ≠ w) :
    ¬ Near (fun i => (i : Rat)) v w := by
  have size : |(w : Rat)| ≤ 99998 := by
    rw [abs_natAbs]
    exact_mod_cast small
  have apart : (1 : Rat) ≤ |(v : Rat) - w| := by
    have int : 1 ≤ |v - w| := Int.one_le_abs (by omega)
    rw [← Int.cast_sub, ← Int.cast_abs]
    exact_mod_cast int
  have gap := abs_sub_abs_le_abs_sub (v : Rat) w
  rw [Near, not_le, max_lt_iff]
  constructor
  · by_cases large : 100000 ≤ v.natAbs
    · have size' : (100000 : Rat) ≤ |(v : Rat)| := by
        rw [abs_natAbs]
        exact_mod_cast large
      rw [max_eq_left (by linarith), relTol]
      norm_num
      linarith
    · have size' : |(v : Rat)| ≤ 99999 := by
        rw [abs_natAbs]
        exact_mod_cast Nat.le_of_lt_succ (Nat.lt_of_not_le large)
      have both : max |(v : Rat)| |(w : Rat)| ≤ 99999 := max_le size' (by linarith)
      rw [relTol]
      norm_num
      linarith
  · have tol : absTol < 1 := by decide +kernel
    linarith

theorem near_zip_self (conv : Int → Rat) (vs : List Int) :
    ∀ p ∈ vs.zip vs, Near conv p.1 p.2 := by
  induction vs with
  | nil => simp
  | cons v vs ih =>
    intro p hp
    rcases List.mem_cons.mp hp with rfl | hp
    · exact near_self conv v
    · exact ih p hp

theorem all_near {actual expected : List Text} {vs ws : List Int}
    (reads : ∀ t v, Text.IsNumeral t v → v.natAbs < 2 ^ 64 → float t = some (.finite (conv v)))
    (left : List.Forall₂ Text.IsNumeral actual vs) (right : List.Forall₂ Text.IsNumeral expected ws)
    (small : ∀ v ∈ vs ++ ws, v.natAbs < 2 ^ 64) :
    (actual.zip expected).all (tokensMatch float) = true ↔
      ∀ p ∈ vs.zip ws, Near conv p.1 p.2 := by
  induction left generalizing expected ws with
  | nil => simp
  | @cons a v actual vs numeral _ ih =>
    cases right with
    | nil => simp
    | @cons e w expected ws numeral' tail' =>
      have readLeft := reads a v numeral (small v (by simp))
      have readRight := reads e w numeral' (small w (by simp))
      have rest := ih tail' fun u hu => small u (by
        rcases List.mem_append.mp hu with h | h <;> simp [h])
      have head : tokensMatch float (a, e) = true ↔ Near conv v w := by
        simp [tokensMatch, readLeft, readRight, isClose, Near]
      rw [List.zip_cons_cons, List.zip_cons_cons, List.all_cons, Bool.and_eq_true, head, rest,
        List.forall_mem_cons]

theorem valuesMatch_near {actual expected : List Text} {vs ws : List Int}
    (reads : ∀ t v, Text.IsNumeral t v → v.natAbs < 2 ^ 64 → float t = some (.finite (conv v)))
    (left : List.Forall₂ Text.IsNumeral actual vs) (right : List.Forall₂ Text.IsNumeral expected ws)
    (small : ∀ v ∈ vs ++ ws, v.natAbs < 2 ^ 64) :
    valuesMatch float actual expected = true ↔ Close conv vs ws := by
  have lengths := left.length_eq
  have lengths' := right.length_eq
  unfold valuesMatch
  split
  · next ne =>
    constructor
    · intro h
      cases h
    · rintro ⟨eq, _⟩
      omega
  · next eq =>
    rw [all_near reads left right small]
    constructor
    · intro h
      exact ⟨by omega, h⟩
    · rintro ⟨_, h⟩
      exact h

theorem outputMatches_close {stdout block : Text} {vs ws : List Int}
    (reads : ∀ t v, Text.IsNumeral t v → v.natAbs < 2 ^ 64 → float t = some (.finite (conv v)))
    (prints : PrintsInts (Text.splitLines stdout) vs) (expects : ExpectsInts block ws)
    (small : ∀ v ∈ vs ++ ws, v.natAbs < 2 ^ 64) :
    outputMatches float stdout block = .ok (decide (Close conv vs ws)) := by
  obtain ⟨actual, run, left⟩ := resultValues_ints prints
  obtain ⟨expected, strips, right⟩ := expectedValues_ints expects
  have matched : valuesMatch float actual expected = decide (Close conv vs ws) := by
    rw [Bool.eq_iff_iff, decide_eq_true_eq]
    exact valuesMatch_near reads left right small
  simp [outputMatches, ireeOutputValues, run, strips, matched, bind, Except.bind, pure, Except.pure]

end Match

/-- The double that Python's `float` makes of an integer. -/
def double (i : Int) : Rat := Rounding.roundInt 53 i

theorem double_exact {i : Int} (h : i.natAbs < 2 ^ 53) : double i = i := by
  rw [double, Rounding.roundInt_exact h]

/-- No other integer becomes the double of a small one. -/
theorem double_ne {v w : Int} (small : w.natAbs ≤ 99998) (ne : v ≠ w) :
    Rounding.roundInt 53 v ≠ w := by
  by_cases h : v.natAbs < 2 ^ 53
  · rwa [Rounding.roundInt_exact h]
  · have close := Rounding.roundInt_near (Nat.le_of_not_lt h)
    rintro rfl
    rw [Int.abs_eq_natAbs, Int.abs_eq_natAbs] at close
    omega

/-- The error of a double is at most one part in `2 ^ 53`. -/
theorem double_near (i : Int) : 2 ^ 53 * |double i - i| ≤ |(i : Rat)| := by
  by_cases h : i.natAbs < 2 ^ 53
  · rw [double_exact h, sub_self, abs_zero, mul_zero]
    exact abs_nonneg _
  · have close := Rounding.roundInt_near (Nat.le_of_not_lt h)
    rw [double, ← Int.cast_sub, ← Int.cast_abs, ← Int.cast_abs]
    exact_mod_cast close

theorem near_comm {conv : Int → Rat} {v w : Int} (h : Near conv v w) : Near conv w v := by
  rwa [Near, abs_sub_comm, max_comm |conv w|]

/-- An integer of 100000 or more is taken for its neighbours. -/
theorem near_next {v w : Int} (large : 100000 ≤ w.natAbs) (next : |v - w| = 1) :
    Near double v w := by
  have size : (100000 : Rat) ≤ |(w : Rat)| := by
    rw [abs_natAbs]
    exact_mod_cast large
  have gap : |(v : Rat) - w| = 1 := by
    rw [← Int.cast_sub, ← Int.cast_abs, next, Int.cast_one]
  refine le_max_of_le_left ?_
  have scaled : relTol * |double w| ≤ relTol * max |double v| |double w| :=
    mul_le_mul_of_nonneg_left (le_max_right _ _) (by decide +kernel)
  refine le_trans ?_ scaled
  by_cases exact : v.natAbs < 2 ^ 53 ∧ w.natAbs < 2 ^ 53
  · rw [double_exact exact.1, double_exact exact.2, gap, relTol]
    norm_num
    linarith
  · have huge : (2 ^ 53 - 1 : Rat) ≤ |(w : Rat)| := by
      have int : 2 ^ 53 - 1 ≤ |w| := by
        rw [abs_eq_max_neg] at next ⊢
        omega
      rw [← Int.cast_abs]
      exact_mod_cast int
    have left := double_near v
    have right := double_near w
    have near : |(v : Rat)| ≤ |(w : Rat)| + 1 := by
      have triangle := abs_sub_abs_le_abs_sub (v : Rat) w
      linarith
    have apart : |double v - double w| ≤ |double v - v| + 1 + |double w - w| := by
      have first := abs_sub_le (double v) v (double w)
      have second := abs_sub_le (v : Rat) w (double w)
      rw [abs_sub_comm (w : Rat)] at second
      linarith
    have lower : |(w : Rat)| - |double w - w| ≤ |double w| := by
      have triangle := abs_sub_abs_le_abs_sub (w : Rat) (double w)
      rw [abs_sub_comm] at triangle
      linarith
    refine apart.trans ?_
    rw [relTol]
    norm_num at left right huge ⊢
    linarith

def rowText (vs : List Int) : Text :=
  "1x".toList ++ (Text.natText vs.length ++ ("xi64".toList ++
    '=' :: (['['] ++ (Text.join [' '] (vs.map Text.intText) ++ [']']))))

def rowOutput (vs : List Int) : Text := "result[0]: hal.buffer_view".toList ++ '\n' :: rowText vs

theorem afterEquals_first {s : Text} (absent : '=' ∉ s) (r : Text) :
    afterEquals (s ++ '=' :: r) = r := by
  have stop : (s ++ '=' :: r).dropWhile (· != '=') = '=' :: r := by
    rw [List.dropWhile_append_of_pos fun c hc => by
      rw [bne_iff_ne]
      rintro rfl
      exact absent hc]
    rfl
  rw [afterEquals, stop]

def isIntChar (c : Char) : Bool := c == '-' || c.isDigit

theorem isIntChar_plain {c : Char} (h : isIntChar c = true) :
    Text.isBreak c = false ∧ (Text.isSpace c || c == '[' || c == ']') = false := by
  rw [isIntChar, Bool.or_eq_true, beq_iff_eq] at h
  rcases h with rfl | digit
  · decide
  · have space := Text.isSpace_digit digit
    refine ⟨Text.isBreak_digit digit, ?_⟩
    rw [space]
    simp only [Bool.false_or, Bool.or_eq_false_iff, beq_eq_false_iff_ne]
    constructor
    · rintro rfl
      exact absurd digit (by decide)
    · rintro rfl
      exact absurd digit (by decide)

theorem isIntChar_natText {n : Nat} {c : Char} (h : c ∈ Text.natText n) : isIntChar c = true := by
  simp [isIntChar, (Text.isDecimal_natText n).2 c h]

theorem isIntChar_intText {v : Int} {c : Char} (h : c ∈ Text.intText v) : isIntChar c = true := by
  rcases Text.mem_intText h with rfl | digit
  · rfl
  · simp [isIntChar, digit]

theorem isBreak_all {s : Text} (h : s.all (fun c => !Text.isBreak c) = true) :
    ∀ c ∈ s, Text.isBreak c = false := by
  intro c hc
  simpa using List.all_eq_true.mp h c hc

theorem rowText_line (vs : List Int) : ∀ c ∈ rowText vs, Text.isBreak c = false := by
  intro c hc
  simp only [rowText, List.mem_append, List.mem_cons] at hc
  rcases hc with hc | hc | hc | rfl | hc | hc | hc
  · exact isBreak_all (by decide +kernel) c hc
  · exact (isIntChar_plain (isIntChar_natText hc)).1
  · exact isBreak_all (by decide +kernel) c hc
  · rfl
  · exact isBreak_all (s := ['[']) (by decide +kernel) c (by simpa using hc)
  · rcases Text.mem_join hc with hc | ⟨t, ht, hc⟩
    · exact isBreak_all (s := [' ']) (by decide +kernel) c hc
    · obtain ⟨v, _, rfl⟩ := List.mem_map.mp ht
      exact (isIntChar_plain (isIntChar_intText hc)).1
  · exact isBreak_all (s := [']']) (by decide +kernel) c (by simpa using hc)

theorem rowText_trimmed (vs : List Int) : Text.Trimmed (rowText vs) := by
  constructor
  · exact List.cons_ne_nil _ _
  · intro c hc
    cases hc
    decide +kernel
  · intro c hc
    have snoc : rowText vs = ("1x".toList ++ (Text.natText vs.length ++ ("xi64".toList ++
        '=' :: (['['] ++ Text.join [' '] (vs.map Text.intText))))) ++ [']'] := by
      simp only [rowText, List.append_assoc, List.cons_append]
    rw [snoc, List.getLast?_concat] at hc
    cases hc
    decide +kernel

theorem rowText_ints (vs : List Int) : PayloadInts (rowText vs).strip vs := by
  have strip : (rowText vs).strip = rowText vs :=
    Text.strip_trimmed Text.isGap_nil (rowText_trimmed vs)
  have absent : '=' ∉ "1x".toList ++ (Text.natText vs.length ++ "xi64".toList) := by
    simp only [List.mem_append, not_or]
    refine ⟨by decide, fun member => ?_, by decide⟩
    exact absurd (isIntChar_natText member) (by decide)
  have behind := afterEquals_first absent (['['] ++ (Text.join [' '] (vs.map Text.intText) ++ [']']))
  refine ⟨vs.map Text.intText, ?_, ?_⟩
  · have row : afterEquals (rowText vs).strip =
        ['['] ++ (Text.join [' '] (vs.map Text.intText) ++ [']']) := by
      rw [strip, ← behind, rowText]
      simp only [List.append_assoc]
    rw [row]
    refine Text.spaced_join (by simp) (by simp; rfl) (by simp) (by simp) ?_
    intro t ht
    obtain ⟨v, _, rfl⟩ := List.mem_map.mp ht
    refine ⟨?_, fun c hc => (isIntChar_plain (isIntChar_intText hc)).2⟩
    exact (Text.isNumeral_intText v).nonempty
  · rw [List.forall₂_map_left_iff, List.forall₂_same]
    exact fun v _ => Text.isNumeral_intText v

theorem rowOutput_prints (vs : List Int) : PrintsInts (Text.splitLines (rowOutput vs)) vs := by
  have head := isBreak_all (s := "result[0]: hal.buffer_view".toList) (by decide +kernel)
  have last := Text.splitLines_last (rowText_trimmed vs).nonempty (rowText_line vs)
  have lines : Text.splitLines (rowOutput vs) =
      ["result[0]: hal.buffer_view".toList, rowText vs] :=
    (Text.splitLines_line head (rowText vs)).trans (congrArg _ last)
  have result : resultLine "result[0]: hal.buffer_view".toList = some "hal.buffer_view".toList := by
    decide +kernel
  have prints := PrintsInts.buffer result (List.prefix_refl _) (rowText_ints vs) .nil
  rw [List.append_nil] at prints
  exact lines ▸ prints

theorem close_small {vs ws : List Int} (small : ∀ w ∈ ws, w.natAbs ≤ 99998) :
    Close double vs ws ↔ vs = ws := by
  constructor
  · rintro ⟨length, near⟩
    induction vs generalizing ws with
    | nil => exact (List.length_eq_zero_iff.mp length.symm).symm
    | cons v vs ih =>
      cases ws with
      | nil => cases length
      | cons w ws =>
        obtain ⟨smallHead, smallTail⟩ := List.forall_mem_cons.mp small
        rw [List.zip_cons_cons, List.forall_mem_cons] at near
        have tail := ih smallTail (by simpa using length) near.2
        by_contra ne
        have apart : v ≠ w := by
          rintro rfl
          exact ne (by rw [tail])
        have far := near_bound smallHead (double_ne smallHead apart)
        have here := near.1
        rw [Near, double, double_exact (by omega)] at here
        exact far here
  · rintro rfl
    exact ⟨rfl, near_zip_self double vs⟩

/-- Beside an integer of more than 99998 there is another one that passes for it. -/
theorem exists_near {w : Int} (large : 99998 < w.natAbs) (small : w.natAbs < 2 ^ 64) :
    ∃ v : Int, v.natAbs < 2 ^ 64 ∧ v ≠ w ∧ Near double v w := by
  by_cases least : w.natAbs = 99999
  · obtain ⟨v, size, next⟩ : ∃ v : Int, v.natAbs = 100000 ∧ |w - v| = 1 := by
      rcases Int.natAbs_eq w with eq | eq
      · exact ⟨100000, rfl, by rw [eq, least]; decide⟩
      · exact ⟨-100000, rfl, by rw [eq, least]; decide⟩
    refine ⟨v, by omega, ?_, near_comm (near_next (by omega) next)⟩
    rintro rfl
    omega
  · obtain ⟨v, size, next⟩ : ∃ v : Int, v.natAbs + 1 = w.natAbs ∧ |v - w| = 1 := by
      rcases Int.natAbs_eq w with eq | eq
      · exact ⟨w - 1, by omega, by simp⟩
      · exact ⟨w + 1, by omega, by simp⟩
    refine ⟨v, by omega, ?_, near_next (by omega) next⟩
    rintro rfl
    omega

/-- A test of integers passes exactly for equal sequences, whatever the run prints, as long as
no integer beyond 99998 is expected. -/
theorem outputMatches_ints {float : Text → Option FloatLit} {block : Text} {ws : List Int}
    (reads : ∀ t v, Text.IsNumeral t v → v.natAbs < 2 ^ 64 →
      float t = some (.finite (double v)))
    (expects : ExpectsInts block ws) (small : ∀ w ∈ ws, w.natAbs < 2 ^ 64) :
    (∀ stdout vs, PrintsInts (Text.splitLines stdout) vs → (∀ v ∈ vs, v.natAbs < 2 ^ 64) →
      outputMatches float stdout block = .ok (decide (vs = ws))) ↔
      ∀ w ∈ ws, w.natAbs ≤ 99998 := by
  have sizes {vs : List Int} (h : ∀ v ∈ vs, v.natAbs < 2 ^ 64) :
      ∀ v ∈ vs ++ ws, v.natAbs < 2 ^ 64 := fun v member =>
    (List.mem_append.mp member).elim (h v) (small v)
  constructor
  · intro sound w member
    by_contra large
    obtain ⟨v, bound, ne, near⟩ := exists_near (Nat.lt_of_not_le large) (small w member)
    -- one integer of the expected sequence is off
    obtain ⟨us, us', rfl⟩ := List.append_of_mem member
    have bounds : ∀ u ∈ us ++ v :: us', u.natAbs < 2 ^ 64 := by
      intro u hu
      rcases List.mem_append.mp hu with hu | hu
      · exact small u (by simp [hu])
      · rcases List.mem_cons.mp hu with rfl | hu
        · exact bound
        · exact small u (by simp [hu])
    have prints := rowOutput_prints (us ++ v :: us')
    have told := sound _ _ prints bounds
    rw [outputMatches_close reads prints expects (sizes bounds), Except.ok.injEq,
      decide_eq_decide] at told
    have close : Close double (us ++ v :: us') (us ++ w :: us') := by
      refine ⟨by simp, ?_⟩
      rw [List.zip_append rfl, List.zip_cons_cons]
      intro p hp
      rcases List.mem_append.mp hp with hp | hp
      · exact near_zip_self double us p hp
      · rcases List.mem_cons.mp hp with rfl | hp
        · exact near
        · exact near_zip_self double us' p hp
    have same := told.mp close
    exact ne (by simpa using same)
  · intro bound stdout vs prints bounds
    rw [outputMatches_close reads prints expects (sizes bounds), Except.ok.injEq, decide_eq_decide]
    exact close_small bound

def readFloat (t : Text) : Option FloatLit := (Text.readInt? t).map fun v => .finite (double v)

theorem spaced_one {sep : Char → Bool} {t : Text} (nonempty : t ≠ [])
    (word : t.all (fun c => !sep c) = true) : Text.Spaced sep [t] t := by
  have apart : ∀ c ∈ t, sep c = false := fun c hc => by
    simpa using List.all_eq_true.mp word c hc
  have spaced := Text.Spaced.cons (g := []) (by simp) nonempty apart
    (Pattern.ends_nil fun c => !sep c) (.nil (g := []) (by simp))
  simpa using spaced

theorem printsInts_one {line payload : Text} {v : Int} (result : resultLine line = some payload)
    (plain : ¬ "hal.buffer_view".toList <+: payload)
    (numeral : Text.IsNumeral (afterEquals payload) v) (nonempty : afterEquals payload ≠ [])
    (word : (afterEquals payload).all
      (fun c => !(Text.isSpace c || c == '[' || c == ']')) = true) :
    PrintsInts [line] [v] := by
  have ints : PayloadInts payload [v] :=
    ⟨_, spaced_one nonempty word, .cons numeral .nil⟩
  exact .inline result plain ints .nil

/-- A run that prints 100001 passes where 100000 is expected. -/
theorem outputMatches_off_by_one :
    PrintsInts (Text.splitLines "result[0]: i32=100001".toList) [100001] ∧
      ExpectsInts "100000i32".toList [100000] ∧
      outputMatches readFloat "result[0]: i32=100001".toList "100000i32".toList = .ok true ∧
      ([100001] : List Int) ≠ [100000] := by
  have line : Text.splitLines "result[0]: i32=100001".toList = ["result[0]: i32=100001".toList] := by
    decide +kernel
  have result : resultLine "result[0]: i32=100001".toList = some "i32=100001".toList := by
    decide +kernel
  have printed : Text.IsNumeral "100001".toList 100001 := .plain (by decide +kernel)
  have expected : Text.IsNumeral "100000".toList 100000 := .plain (by decide +kernel)
  have literal : IsIntLiteral "100000i32".toList 100000 :=
    .typed (w := "32".toList) expected (.inl rfl) (by decide +kernel)
  constructor
  · rw [line]
    exact printsInts_one result (by decide +kernel) printed (by decide +kernel) (by decide +kernel)
  · refine ⟨⟨_, spaced_one (by decide +kernel) (by decide +kernel), .cons literal .nil⟩, ?_, ?_⟩
    · decide +kernel
    · decide

/-- A pair far apart fails where three numbers below the bound are expected. -/
theorem outputMatches_ints_three :
    (∀ stdout vs, PrintsInts (Text.splitLines stdout) vs → (∀ v ∈ vs, v.natAbs < 2 ^ 64) →
      outputMatches readFloat stdout "[7i64, -12i64, 99998i64]".toList =
        .ok (decide (vs = [7, -12, 99998]))) ∧
    outputMatches readFloat (rowOutput [7, 40000, 99998]) "[7i64, -12i64, 99998i64]".toList =
      .ok false := by
  have literal {t : Text} {v : Int} (h : Text.IsNumeral t v) :
      IsIntLiteral (t ++ ['i', '6', '4']) v := .typed (w := ['6', '4']) h (.inl rfl) (by decide)
  have words : ["7i64".toList, "-12i64".toList, "99998i64".toList].all
      (fun t => !t.isEmpty && t.all fun c => !(Text.isSpace c || isMark c)) = true := by
    decide +kernel
  have text : "[7i64, -12i64, 99998i64]".toList =
      ['['] ++ (Text.join [',', ' '] ["7i64".toList, "-12i64".toList, "99998i64".toList] ++ [']']) := by
    decide +kernel
  have apart : ∀ t ∈ ["7i64".toList, "-12i64".toList, "99998i64".toList],
      t ≠ [] ∧ ∀ c ∈ t, (Text.isSpace c || isMark c) = false := by
    intro t ht
    have word := List.all_eq_true.mp words t ht
    simpa using word
  have spaced := @Text.spaced_join _ [',', ' '] ['['] [']'] _ (by simp) (by simp; decide +kernel)
    (by simp; decide +kernel) (by simp; decide +kernel) apart
  have first := literal (t := ['7']) (.plain (by decide))
  have second := literal (t := ['-', '1', '2']) (.minus (by decide))
  have third := literal (t := "99998".toList) (.plain (by decide))
  have expects : ExpectsInts "[7i64, -12i64, 99998i64]".toList [7, -12, 99998] :=
    ⟨_, text ▸ spaced, .cons first (.cons second (.cons third .nil))⟩
  have reads : ∀ t v, Text.IsNumeral t v → v.natAbs < 2 ^ 64 →
      readFloat t = some (.finite (double v)) := by
    intro t v h _
    simp [readFloat, h.read]
  have sound := (outputMatches_ints reads expects (by decide)).mpr (by decide)
  refine ⟨sound, ?_⟩
  rw [sound _ _ (rowOutput_prints _) (by decide)]
  rfl

end FutharkMlir
