import FutharkMlir.Lib.Except
import FutharkMlir.Syntax.Literals
import Mathlib.Algebra.Order.Field.Power
import Mathlib.Algebra.Order.Ring.Rat
import Mathlib.Tactic.Linarith

/-! Float literals: the FLOAT tokens of the grammar, what the visitor reads from them, and
when the number survives. -/
namespace FutharkMlir

/-- `[eE][+-]?DIGIT+`. -/
structure FloatExponent where
  upper : Bool
  sign : Option Bool
  digits : Text
  decimal : Text.IsDecimal digits

/-- `'-'? DIGIT+ '.' DIGIT+ ([eE][+-]?DIGIT+)?`. -/
structure FloatToken where
  negative : Bool
  whole : Text
  fraction : Text
  exponent : Option FloatExponent
  wholeDecimal : Text.IsDecimal whole
  fractionDecimal : Text.IsDecimal fraction

def FloatExponent.text (e : FloatExponent) : Text :=
  (if e.upper then 'E' else 'e') ::
    ((match e.sign with
      | none => []
      | some true => ['-']
      | some false => ['+']) ++ e.digits)

def FloatExponent.value (e : FloatExponent) : Int :=
  withSign (e.sign = some true) (Nat.ofDigitChars 10 e.digits 0)

namespace FloatToken

def text (f : FloatToken) : Text :=
  signText f.negative ++ (f.whole ++ '.' :: (f.fraction ++ (f.exponent.map (·.text)).getD []))

/-- The power of ten of the last digit. -/
def scale (f : FloatToken) : Int := (f.exponent.map (·.value)).getD 0 - f.fraction.length

def value (f : FloatToken) : Rat :=
  withSign f.negative (Nat.ofDigitChars 10 (f.whole ++ f.fraction) 0) * (10 : Rat) ^ f.scale

end FloatToken

/-- `std::stod` and the conversion of a double to a float, neither of which is looked into. -/
structure FloatConv where
  stod : Text → Except Err FloatLit
  toFloat : FloatLit → FloatLit

/-- The conversion to `uint16_t`, which is undefined outside the range. -/
def toUint16 : FloatLit → Except Err (BitVec 16)
  | .finite q => if 0 ≤ q ∧ q < 65536 then .ok (BitVec.ofNat 16 q.floor.toNat) else .error .ub
  | _ => .error .ub

/-- `VisitPrimValueFloat`, from the texts of the two tokens. -/
def visitPrimValueFloat (conv : FloatConv) (float w : Text) : Except Err FloatValue := do
  let v ← conv.stod float
  if w = ['f', '1', '6'] then .float16 <$> toUint16 v
  else if w = ['f', '3', '2'] then return .float32 (conv.toFloat v)
  else if w = ['f', '6', '4'] then return .float64 v
  else .error .undefined

def FloatType.text : FloatType → Text
  | .float16 => ['f', '1', '6']
  | .float32 => ['f', '3', '2']
  | .float64 => ['f', '6', '4']

/-- The numbers of a format are significands below `2 ^ precision`, scaled by a power of two
between two bounds. -/
def FloatType.precision : FloatType → Nat
  | .float16 => 11
  | .float32 => 24
  | .float64 => 53

def FloatType.minExponent : FloatType → Int
  | .float16 => -24
  | .float32 => -149
  | .float64 => -1074

def FloatType.maxExponent : FloatType → Int
  | .float16 => 5
  | .float32 => 104
  | .float64 => 971

def Representable (t : FloatType) (q : Rat) : Prop :=
  ∃ m e : Int, m.natAbs < 2 ^ t.precision ∧ t.minExponent ≤ e ∧ e ≤ t.maxExponent ∧
    q = m * (2 : Rat) ^ e

theorem Representable.double {t : FloatType} {q : Rat} (h : Representable t q) :
    Representable .float64 q := by
  obtain ⟨m, e, small, low, high, rfl⟩ := h
  refine ⟨m, e, ?_, ?_, ?_, rfl⟩
  · apply Nat.lt_of_lt_of_le small
    cases t <;> decide
  · apply Int.le_trans _ low
    cases t <;> decide
  · apply Int.le_trans high
    cases t <;> decide

theorem Representable.half_lt {q : Rat} (h : Representable .float16 q) : q < 65536 := by
  obtain ⟨m, e, small, _, high, rfl⟩ := h
  have bound : (m : Rat) ≤ 2047 := by
    have int : m ≤ 2047 := by
      have : m.natAbs < 2048 := small
      omega
    exact_mod_cast int
  have power : (2 : Rat) ^ e ≤ 2 ^ (5 : Int) := zpow_le_zpow_right₀ (by norm_num) high
  have positive : (0 : Rat) < 2 ^ e := by positivity
  have value : (2 : Rat) ^ (5 : Int) = 32 := by norm_num
  rw [value] at power
  calc (m : Rat) * 2 ^ e ≤ 2047 * 2 ^ e := by gcongr
    _ ≤ 2047 * 32 := by gcongr
    _ < 65536 := by norm_num

/-- The number of the token is that of the value and of the constant built from it. -/
def KeepsFloat (conv : FloatConv) (f : FloatToken) (t : FloatType) : Prop :=
  ∃ c, visitPrimValueFloat conv f.text t.text = .ok c ∧ c.getType = t ∧
    c.getValue = .finite f.value ∧
    getPrimValueAttr (.float c) = .ok (.float t (.finite f.value))

theorem toUint16_nat {n : Nat} (small : n < 65536) :
    toUint16 (.finite n) = .ok (BitVec.ofNat 16 n) := by
  have range : (0 : Rat) ≤ n ∧ (n : Rat) < 65536 := by
    constructor
    · positivity
    · exact_mod_cast small
  have floor : (n : Rat).floor = n := by exact_mod_cast Rat.floor_intCast (n : Int)
  simp [toUint16, range, floor]

/-- The two wider formats keep every number, half precision the natural ones. -/
theorem keepsFloat_iff {conv : FloatConv} {f : FloatToken} {t : FloatType}
    (representable : Representable t f.value)
    (stod : Representable .float64 f.value → conv.stod f.text = .ok (.finite f.value))
    (toFloat : Representable .float32 f.value →
      conv.toFloat (.finite f.value) = .finite f.value) :
    KeepsFloat conv f t ↔ (t = .float16 → ∃ n : Nat, f.value = n) := by
  have read := stod representable.double
  cases t with
  | float16 =>
    have run : visitPrimValueFloat conv f.text FloatType.float16.text =
        .float16 <$> toUint16 (.finite f.value) := by
      rw [visitPrimValueFloat, read]
      rfl
    constructor
    · rintro ⟨c, ok, _, value, _⟩ _
      rw [run] at ok
      obtain ⟨bits, _, rfl⟩ := Except.map_eq_ok.mp ok
      exact ⟨bits.toNat, (FloatLit.finite.inj value).symm⟩
    · intro natural
      obtain ⟨n, eq⟩ := natural rfl
      have small : n < 65536 := by
        have bound := representable.half_lt
        rw [eq] at bound
        exact_mod_cast bound
      have value : (BitVec.ofNat 16 n).toNat = n := by
        rw [BitVec.toNat_ofNat]
        exact Nat.mod_eq_of_lt small
      rw [eq, toUint16_nat small] at run
      refine ⟨.float16 (BitVec.ofNat 16 n), run, rfl, ?_, ?_⟩
      · rw [FloatValue.getValue, value, eq]
      · rw [getPrimValueAttr, FloatValue.getValue, value, eq]
        rfl
  | float32 =>
    have run : visitPrimValueFloat conv f.text FloatType.float32.text =
        .ok (.float32 (.finite f.value)) := by
      rw [visitPrimValueFloat, read]
      simp [FloatType.text, bind, Except.bind, pure, Except.pure, toFloat representable]
    constructor
    · intro _ other
      cases other
    · intro _
      exact ⟨_, run, rfl, rfl, rfl⟩
  | float64 =>
    have run : visitPrimValueFloat conv f.text FloatType.float64.text =
        .ok (.float64 (.finite f.value)) := by
      rw [visitPrimValueFloat, read]
      rfl
    constructor
    · intro _ other
      cases other
    · intro _
      exact ⟨_, run, rfl, rfl, rfl⟩

def tokenConv (f : FloatToken) : FloatConv where
  stod s := if s = f.text then .ok (.finite f.value) else .error (.runtime "invalid_argument")
  toFloat v := v

theorem tokenConv_stod (f : FloatToken) :
    (tokenConv f).stod f.text = .ok (.finite f.value) := by
  simp [tokenConv]

def halfToken : FloatToken where
  negative := false
  whole := ['0']
  fraction := ['5']
  exponent := none
  wholeDecimal := by decide
  fractionDecimal := by decide

def minusFifteen : FloatToken where
  negative := true
  whole := ['1']
  fraction := ['5']
  exponent := some { upper := false, sign := none, digits := ['1'], decimal := by decide }
  wholeDecimal := by decide
  fractionDecimal := by decide

theorem halfToken_value : halfToken.value = 1 / 2 := by
  have digits : Nat.ofDigitChars 10 (['0'] ++ ['5']) 0 = 5 := by decide +kernel
  simp only [FloatToken.value, FloatToken.scale, halfToken, digits, withSign]
  norm_num

theorem minusFifteen_value : minusFifteen.value = -15 := by
  have digits : Nat.ofDigitChars 10 (['1'] ++ ['5']) 0 = 15 := by decide +kernel
  have scale : minusFifteen.scale = 0 := by decide +kernel
  rw [FloatToken.value, scale]
  simp only [minusFifteen, digits, withSign]
  norm_num

/-- In half precision `0.5` becomes zero. -/
theorem keepsFloat_half : Representable .float16 halfToken.value ∧
    (tokenConv halfToken).stod halfToken.text = .ok (.finite halfToken.value) ∧
    visitPrimValueFloat (tokenConv halfToken) halfToken.text FloatType.float16.text =
      .ok (.float16 0) ∧
    ¬ KeepsFloat (tokenConv halfToken) halfToken .float16 := by
  have read : (tokenConv halfToken).stod halfToken.text = .ok (.finite (1 / 2)) := by
    rw [tokenConv_stod, halfToken_value]
  have zero : visitPrimValueFloat (tokenConv halfToken) halfToken.text FloatType.float16.text =
      .ok (.float16 0) := by
    rw [visitPrimValueFloat, read]
    decide +kernel
  refine ⟨⟨1, -1, by decide, by decide, by decide, ?_⟩, ?_, zero, ?_⟩
  · rw [halfToken_value]
    norm_num
  · exact tokenConv_stod halfToken
  · rintro ⟨c, ok, _, value, _⟩
    rw [zero] at ok
    cases ok
    rw [halfToken_value] at value
    revert value
    decide +kernel

theorem keepsFloat_iff_minusFifteen :
    KeepsFloat (tokenConv minusFifteen) minusFifteen .float32 := by
  apply (keepsFloat_iff ?_ ?_ ?_).mpr
  · intro other
    cases other
  · refine ⟨-15, 0, by decide, by decide, by decide, ?_⟩
    rw [minusFifteen_value]
    norm_num
  · intro _
    exact tokenConv_stod minusFifteen
  · intro _
    rfl

end FutharkMlir
