import FutharkMlir.Runner.Values

namespace FutharkMlir

open Pattern (char many1)

/-- `-?\d+(?:\.\d+)?`, the group that `_strip_suffix` returns. -/
def number : Pattern Text := do
  let sign ← Pattern.optional (char (· == '-'))
  let digits ← many1 Text.isDigit
  let fraction ← Pattern.optional do
    let point ← char (· == '.')
    let digits ← many1 Text.isDigit
    return point ++ digits
  return sign ++ (digits ++ fraction)

/-- `[iuf]\d+|bool`. -/
def typeSuffix : Pattern Text :=
  Pattern.orElse
    (do
      let kind ← char fun c => c == 'i' || c == 'u' || c == 'f'
      let width ← many1 Text.isDigit
      return kind ++ width)
    (Pattern.text ['b', 'o', 'o', 'l'])

def scalarPattern : Pattern Text := do
  let n ← number
  let _ ← Pattern.optional typeSuffix
  let _ ← Pattern.atEnd
  return n

def stripSuffix (tok : Text) : Except Failure Text :=
  match scalarPattern.matchStart tok with
  | none => .error (.unsupported (.cannotParseScalar tok))
  | some n => .ok n

def elemTypePattern : Pattern Text := do
  let t ← typeSuffix
  let _ ← Pattern.atEnd
  return t

def elemType (tok : Text) : Except Failure Text :=
  match elemTypePattern.search tok with
  | none => .error (.unsupported (.noTypeSuffix tok))
  | some t => .ok t

def IsDigits (ds : Text) : Prop := ds ≠ [] ∧ ∀ c ∈ ds, Text.isDigit c = true

theorem isDigits_decimal {ds : Text} (h : Text.IsDecimal ds) : IsDigits ds :=
  ⟨h.1, fun c hc => Text.isDigit_ascii (h.2 c hc)⟩

inductive IsNumber : Text → Prop
  | whole {s ds : Text} : s = [] ∨ s = ['-'] → IsDigits ds → IsNumber (s ++ (ds ++ []))
  | fraction {s ds fs : Text} : s = [] ∨ s = ['-'] → IsDigits ds → IsDigits fs →
      IsNumber (s ++ (ds ++ ('.' :: fs)))

inductive IsSuffix : Text → Prop
  | width {k : Char} {ds : Text} : k = 'i' ∨ k = 'u' ∨ k = 'f' → IsDigits ds → IsSuffix (k :: ds)
  | bool : IsSuffix ['b', 'o', 'o', 'l']

theorem isDigit_mark {c : Char} (h : c ∈ ['-', '.', 'i', 'u', 'f', 'b']) :
    Text.isDigit c = false := by
  have none : ['-', '.', 'i', 'u', 'f', 'b'].all (fun c => !Text.isDigit c) = true := by
    decide +kernel
  simpa using List.all_eq_true.mp none c h

theorem IsSuffix.ends {t : Text} (h : t = [] ∨ IsSuffix t) : Pattern.Ends Text.isDigit t := by
  rcases h with rfl | h
  · simp
  · cases h with
    | width kind _ => rcases kind with rfl | rfl | rfl <;> simp [isDigit_mark]
    | bool => simp [isDigit_mark]

theorem first_digits {ds r : Text} (h : IsDigits ds) (ends : Pattern.Ends Text.isDigit r) :
    (many1 Text.isDigit).first (ds ++ r) = some (ds, r) :=
  Pattern.first_many1 h.1 h.2 ends

theorem first_sign {s ds r : Text} (sign : s = [] ∨ s = ['-']) (digits : IsDigits ds) :
    (Pattern.optional (char (· == '-'))).first (s ++ (ds ++ r)) = some (s, ds ++ r) := by
  rcases sign with rfl | rfl
  · apply Pattern.first_optional_nil
    obtain ⟨c, ds, rfl⟩ := List.exists_cons_of_ne_nil digits.1
    apply Pattern.char_nil
    have digit := digits.2 c (by simp)
    rw [beq_eq_false_iff_ne]
    rintro rfl
    rw [isDigit_mark (by simp)] at digit
    cases digit
  · exact Pattern.first_optional (Pattern.first_char (ds ++ r) rfl)

theorem first_number {n t : Text} (h : IsNumber n) (suffix : t = [] ∨ IsSuffix t) :
    number.first (n ++ t) = some (n, t) := by
  have ends := IsSuffix.ends suffix
  cases h with
  | @whole s ds sign digits =>
    simp only [List.append_assoc, List.nil_append]
    apply Pattern.first_bind (first_sign sign digits)
    apply Pattern.first_bind (first_digits digits ends)
    apply Pattern.first_bind (Pattern.first_optional_nil _) rfl
    cases t with
    | nil => rfl
    | cons c t =>
      apply Pattern.bind_nil (Pattern.char_nil t _)
      rcases suffix with ⟨⟨⟩⟩ | suffix
      cases suffix with
      | width kind _ => rcases kind with rfl | rfl | rfl <;> rfl
      | bool => rfl
  | @fraction s ds fs sign digits fraction =>
    simp only [List.append_assoc, List.cons_append]
    apply Pattern.first_bind (first_sign sign digits)
    apply Pattern.first_bind (first_digits digits (by simp [isDigit_mark]))
    refine Pattern.first_bind (Pattern.first_optional ?_) rfl
    apply Pattern.first_bind (Pattern.first_char (fs ++ t) rfl)
    exact Pattern.first_bind (first_digits fraction ends) rfl

theorem first_typeSuffix {t : Text} (h : IsSuffix t) : typeSuffix.first t = some (t, []) := by
  cases h with
  | @width k ds kind digits =>
    apply Pattern.first_orElse_left
    have letter : (k == 'i' || k == 'u' || k == 'f') = true := by
      rcases kind with rfl | rfl | rfl <;> rfl
    apply Pattern.first_bind (Pattern.first_char ds letter)
    have all := first_digits digits (Pattern.ends_nil Text.isDigit)
    rw [List.append_nil] at all
    exact Pattern.first_bind all rfl
  | bool => rfl

theorem stripSuffix_number {n t : Text} (h : IsNumber n) (suffix : t = [] ∨ IsSuffix t) :
    stripSuffix (n ++ t) = .ok n := by
  have found : scalarPattern.first (n ++ t) = some (n, []) := by
    apply Pattern.first_bind (first_number h suffix)
    rcases suffix with rfl | suffix
    · rfl
    · exact Pattern.first_bind (Pattern.first_optional (first_typeSuffix suffix)) rfl
  simp [stripSuffix, Pattern.matchStart_first found]

end FutharkMlir
