import FutharkMlir.Lib.Text
import FutharkMlir.Compiler.Values
import Mathlib.Tactic.Ring

/-! Integer literals: the NUMBER tokens of the grammar, what the visitor reads from them,
and when the value survives. -/
namespace FutharkMlir

def isHexDigit (c : Char) : Bool :=
  c.isDigit || ('a' ≤ c && c ≤ 'f') || ('A' ≤ c && c ≤ 'F')

def hexDigitValue (c : Char) : Nat :=
  if c.isDigit then c.toNat - 48 else if 'a' ≤ c then c.toNat - 87 else c.toNat - 55

/-- `'-'? ([0-9]+ | '0x' [a-fA-F0-9]+)`. -/
structure NumberToken where
  negative : Bool
  hex : Bool
  digits : Text
  nonempty : digits ≠ []
  all : ∀ c ∈ digits, (if hex then isHexDigit c else c.isDigit) = true

def signText (negative : Bool) : Text := if negative then ['-'] else []

def withSign (negative : Bool) (n : Nat) : Int := if negative then -n else n

namespace NumberToken

def unsigned (n : NumberToken) : Text := if n.hex then '0' :: 'x' :: n.digits else n.digits

def text (n : NumberToken) : Text := signText n.negative ++ n.unsigned

def magnitude (n : NumberToken) : Nat :=
  if n.hex then n.digits.foldl (fun v c => 16 * v + hexDigitValue c) 0
  else Nat.ofDigitChars 10 n.digits 0

def value (n : NumberToken) : Int := withSign n.negative n.magnitude

end NumberToken

def decimalPrefix (s : Text) : Option Nat :=
  match s.takeWhile Char.isDigit with
  | [] => none
  | ds => some (Nat.ofDigitChars 10 ds 0)

def parseDecimal : Text → Option Int
  | '-' :: s => (decimalPrefix s).map (withSign true)
  | s => (decimalPrefix s).map (withSign false)

/-- Throws `std::invalid_argument` where there is no digit, and `std::out_of_range`. -/
def stringToInt (bits : Nat) (s : Text) : Except Err Int :=
  match parseDecimal s with
  | none => .error (.runtime "invalid_argument")
  | some v => if -2 ^ (bits - 1) ≤ v ∧ v < 2 ^ (bits - 1) then .ok v else .error .outOfRange

def stoi (s : Text) : Except Err Int := stringToInt 32 s

def stoll (s : Text) : Except Err Int := stringToInt 64 s

/-- `VisitPrimValueInteger`, from the texts of the two tokens. -/
def visitPrimValueInteger (number w : Text) : Except Err IntValue := do
  let v ← stoll number
  if w = ['i', '8'] then return ⟨.int8, BitVec.ofInt 8 v⟩
  else if w = ['i', '1', '6'] then return ⟨.int16, BitVec.ofInt 16 v⟩
  else if w = ['i', '3', '2'] then return ⟨.int32, BitVec.ofInt 32 v⟩
  else if w = ['i', '6', '4'] then return ⟨.int64, BitVec.ofInt 64 v⟩
  else .error .undefined

def IntType.text : IntType → Text
  | .int8 => ['i', '8']
  | .int16 => ['i', '1', '6']
  | .int32 => ['i', '3', '2']
  | .int64 => ['i', '6', '4']

theorem takeWhile_digits {ds : Text} (h : ∀ c ∈ ds, c.isDigit = true) (r : Text)
    (ends : Pattern.Ends Char.isDigit r) : (ds ++ r).takeWhile Char.isDigit = ds := by
  rw [List.takeWhile_append_of_pos h]
  cases r with
  | nil => simp
  | cons c r => simp [(Pattern.ends_cons _ c r).mp ends]

theorem decimalPrefix_digits {ds : Text} (nonempty : ds ≠ []) (h : ∀ c ∈ ds, c.isDigit = true)
    (r : Text) (ends : Pattern.Ends Char.isDigit r) :
    decimalPrefix (ds ++ r) = some (Nat.ofDigitChars 10 ds 0) := by
  unfold decimalPrefix
  rw [takeWhile_digits h r ends]
  obtain ⟨c, ds, rfl⟩ := List.exists_cons_of_ne_nil nonempty
  rfl

theorem parseDecimal_sign (negative : Bool) {c : Char} (s : Text) (plain : c ≠ '-') :
    parseDecimal (signText negative ++ c :: s) =
      (decimalPrefix (c :: s)).map (withSign negative) := by
  cases negative with
  | false =>
    simp only [signText, List.nil_append, Bool.false_eq_true, if_false]
    unfold parseDecimal
    split
    · next eq => exact absurd (List.cons.inj eq).1 plain
    · rfl
  | true => rfl

/-- A hexadecimal token reads as zero. -/
theorem parseDecimal_number (n : NumberToken) :
    parseDecimal n.text = some (if n.hex then 0 else n.value) := by
  obtain ⟨negative, hex, digits, nonempty, all⟩ := n
  cases hex with
  | true =>
    have zero : decimalPrefix ('0' :: 'x' :: digits) = some 0 := rfl
    simp only [NumberToken.text, NumberToken.unsigned, if_true]
    rw [parseDecimal_sign negative _ (by decide), zero]
    cases negative <;> rfl
  | false =>
    simp only [Bool.false_eq_true, if_false] at all
    obtain ⟨c, ds, rfl⟩ := List.exists_cons_of_ne_nil nonempty
    have plain : c ≠ '-' := by
      rintro rfl
      exact absurd (all '-' (by simp)) (by decide)
    have whole := decimalPrefix_digits nonempty all [] (Pattern.ends_nil Char.isDigit)
    rw [List.append_nil] at whole
    simp only [NumberToken.text, NumberToken.unsigned, Bool.false_eq_true, if_false,
      NumberToken.value, NumberToken.magnitude]
    rw [parseDecimal_sign negative ds plain, whole]
    rfl

theorem stringToInt_number (bits : Nat) (n : NumberToken) :
    stringToInt bits n.text =
      if n.hex then stringToInt bits ['0']
      else if -2 ^ (bits - 1) ≤ n.value ∧ n.value < 2 ^ (bits - 1) then .ok n.value
      else .error .outOfRange := by
  unfold stringToInt
  rw [parseDecimal_number]
  cases n.hex <;> rfl

theorem stringToInt_zero : stringToInt 64 ['0'] = .ok 0 := by decide +kernel

def InRange (w : Nat) (v : Int) : Prop := -2 ^ (w - 1) ≤ v ∧ v < 2 ^ (w - 1)

instance (w : Nat) (v : Int) : Decidable (InRange w v) := inferInstanceAs (Decidable (_ ∧ _))

theorem IntType.width_le (t : IntType) : 0 < t.getWidth ∧ t.getWidth ≤ 64 := by
  cases t <;> decide

theorem visitPrimValueInteger_type (number : Text) (t : IntType) :
    visitPrimValueInteger number t.text =
      (stoll number).map fun v => ⟨t, BitVec.ofInt t.getWidth v⟩ := by
  unfold visitPrimValueInteger
  cases stoll number <;> cases t <;> rfl

/-- A value in range survives every step from the parsed integer to the attribute. -/
theorem intValue_inRange {t : IntType} {v : Int} (h : InRange t.getWidth v) :
    let c : IntValue := ⟨t, BitVec.ofInt t.getWidth v⟩
    c.v.toInt = v ∧ (PrimValue.int c).getIntValue = .ok v ∧
      getPrimValueAttr (.int c) = .ok (.integer t.getWidth (BitVec.ofInt t.getWidth v)) := by
  obtain ⟨positive, le⟩ := t.width_le
  have toInt : (BitVec.ofInt t.getWidth v).toInt = v :=
    BitVec.toInt_ofInt_eq_self positive h.1 h.2
  have wide : ((BitVec.ofInt t.getWidth v).signExtend 64).toInt = v :=
    (BitVec.toInt_signExtend_of_le le).trans toInt
  have narrow := setWidth_getValue ⟨t, BitVec.ofInt t.getWidth v⟩
  refine ⟨toInt, ?_, ?_⟩
  · simp [PrimValue.getIntValue, IntValue.getValue, wide]
  · simp only at narrow
    simp only [getPrimValueAttr, narrow]

/-- The token keeps its value at every type that has it, and is refused beyond 64 bits. -/
def KeepsValue (n : NumberToken) : Prop :=
  (∀ t : IntType, InRange t.getWidth n.value →
    ∃ c, visitPrimValueInteger n.text t.text = .ok c ∧ c.t = t ∧ c.v.toInt = n.value ∧
      (PrimValue.int c).getIntValue = .ok n.value ∧
      getPrimValueAttr (.int c) = .ok (.integer t.getWidth (BitVec.ofInt t.getWidth n.value))) ∧
  (¬ InRange 64 n.value → ∀ t : IntType, ∃ e, visitPrimValueInteger n.text t.text = .error e)

theorem stoll_number (n : NumberToken) :
    stoll n.text = if n.hex then .ok 0
      else if InRange 64 n.value then .ok n.value else .error .outOfRange := by
  rw [stoll, stringToInt_number]
  rw [stringToInt_zero]
  rfl

theorem InRange.wider {w w' : Nat} {v : Int} (h : InRange w v) (le : w ≤ w') : InRange w' v := by
  have pow : (2 : Int) ^ (w - 1) ≤ 2 ^ (w' - 1) :=
    mod_cast Nat.pow_le_pow_right (by decide) (Nat.sub_le_sub_right le 1)
  exact ⟨by have := h.1; omega, by have := h.2; omega⟩

/-- A decimal token keeps its value, and a hexadecimal one only if that is zero. -/
theorem keepsValue_iff (n : NumberToken) : KeepsValue n ↔ n.hex = false ∨ n.value = 0 := by
  have reads := stoll_number n
  constructor
  · rintro ⟨keeps, refuses⟩
    by_cases hex : n.hex = true
    · right
      rw [hex, if_pos rfl] at reads
      have run := visitPrimValueInteger_type n.text .int64
      rw [reads] at run
      by_cases range : InRange 64 n.value
      · obtain ⟨c, ok, _, same, _⟩ := keeps .int64 range
        rw [run] at ok
        cases ok
        exact same.symm
      · obtain ⟨e, error⟩ := refuses range .int64
        rw [run] at error
        cases error
    · left
      simpa using hex
  · intro plain
    have parsed : stoll n.text =
        if InRange 64 n.value then .ok n.value else .error .outOfRange := by
      rcases plain with decimal | zero
      · simpa [decimal] using reads
      · have range : InRange 64 0 := by decide
        rw [reads, zero]
        cases n.hex <;> simp [range]
    constructor
    · intro t range
      rw [if_pos (range.wider t.width_le.2)] at parsed
      have run := visitPrimValueInteger_type n.text t
      rw [parsed] at run
      obtain ⟨toInt, get, attr⟩ := intValue_inRange range
      exact ⟨_, run, rfl, toInt, get, attr⟩
    · intro range t
      rw [if_neg range] at parsed
      have run := visitPrimValueInteger_type n.text t
      rw [parsed] at run
      exact ⟨_, run⟩

def hexSixteen : NumberToken where
  negative := false
  hex := true
  digits := ['1', '0']
  nonempty := by decide
  all := by
    intro c hc
    rcases List.mem_cons.mp hc with rfl | hc
    · rfl
    · cases List.mem_singleton.mp hc
      rfl

theorem keepsValue_hexSixteen : hexSixteen.text = ['0', 'x', '1', '0'] ∧ hexSixteen.value = 16 ∧
    visitPrimValueInteger hexSixteen.text IntType.int32.text = .ok ⟨.int32, 0⟩ ∧
    ¬ KeepsValue hexSixteen := by
  have zero : visitPrimValueInteger hexSixteen.text IntType.int32.text = .ok ⟨.int32, 0⟩ := by
    decide +kernel
  refine ⟨rfl, rfl, zero, ?_⟩
  rintro ⟨keeps, _⟩
  obtain ⟨c, ok, _, same, _⟩ := keeps .int32 (by decide +kernel)
  rw [zero] at ok
  cases ok
  revert same
  decide +kernel

end FutharkMlir
