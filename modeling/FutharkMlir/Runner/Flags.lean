import FutharkMlir.Runner.Scalars
import FutharkMlir.Functions.SizeArgs
import FutharkMlir.Lib.Points

/-! How the test runner binds values to the parameters of the compiled entry point: it
reads their size annotations back and infers the sizes from the shapes of the values. -/
namespace FutharkMlir

open Pattern (char many many1)

mutual

def TestValue.leaves : TestValue → List Text
  | .scalar tok => [tok]
  | .list vs => listLeaves vs

def listLeaves : List TestValue → List Text
  | [] => []
  | v :: vs => v.leaves ++ listLeaves vs

end

mutual

/-- `_shape`: the lengths along the first elements. -/
def TestValue.shape : TestValue → Except Failure (List Nat)
  | .scalar _ => return []
  | .list vs => do
    let dims ← headShape vs
    return vs.length :: dims

def headShape : List TestValue → Except Failure (List Nat)
  | [] => .error .indexError
  | v :: _ => v.shape

end

/-- The text of an array's payload: the extents, the element type and the elements. -/
def payloadText (dims : List Nat) (etype : Text) (flat : List Text) : Text :=
  Text.join ['x'] (dims.map Text.natText) ++ ('x' :: etype ++ '=' :: Text.join [' '] flat)

def payload (value : TestValue) : Except Failure Text :=
  match value with
  | .scalar tok => stripSuffix tok
  | .list vs => do
    let dims ← (TestValue.list vs).shape
    match (TestValue.list vs).leaves with
    | [] => .error .indexError
    | first :: rest => do
      let etype ← elemType first
      let flat ← (first :: rest).mapM stripSuffix
      return payloadText dims etype flat

def printElem : ElemTy → Text
  | .int w => 'i' :: Text.natText w
  | .float t => 'f' :: Text.natText t.getWidth
  | .index => ['i', 'n', 'd', 'e', 'x']

def printDim (d : Int) : Text := if isDynamic d then ['?'] else Text.intText d

def printTy : MlirTy → Text
  | .scalar e => printElem e
  | .tensor shape e =>
    ['t', 'e', 'n', 's', 'o', 'r', '<'] ++ (shape.flatMap fun d => printDim d ++ ['x']) ++ printElem e ++ ['>']

def printRefs (refs : List Int) : Text :=
  '[' :: (Text.join [',', ' '] (refs.map Text.intText) ++ [']'])

/-- The `i`-th parameter in the signature of a printed function. -/
def printParam (i : Nat) (ty : MlirTy) : Option (List Int) → Text
  | none => ['%', 'a', 'r', 'g'] ++ Text.natText i ++ [':', ' '] ++ printTy ty
  | some refs =>
    ['%', 'a', 'r', 'g'] ++ Text.natText i ++ [':', ' '] ++ printTy ty ++ [' ', '{'] ++
      ("futhark.size_args".toList ++ ([' ', '=', ' '] ++ (printRefs refs ++ ['}'])))

/-- `futhark\.size_args\s*=\s*(\[[^\]]*\]|array<[^>]*>)`, with its group. -/
def sizeArgsPattern : Pattern Text := do
  let _ ← Pattern.text "futhark.size_args".toList
  let _ ← many Text.isSpace
  let _ ← char (· == '=')
  let _ ← many Text.isSpace
  Pattern.orElse
    (do
      let a ← char (· == '[')
      let b ← many (· != ']')
      let c ← char (· == ']')
      return a ++ b ++ c)
    (do
      let a ← Pattern.text "array<".toList
      let b ← many (· != '>')
      let c ← char (· == '>')
      return a ++ b ++ c)

/-- `-?\d+`. -/
def intPattern : Pattern Text := do
  let sign ← Pattern.optional (char (· == '-'))
  let digits ← many1 Text.isDigit
  return sign ++ digits

/-- `-?\d+`, unless a letter or an ASCII digit stands before it. -/
def refPattern (before : Option Char) : Pattern Text :=
  if before.any Char.isAlphanum then fun _ => [] else intPattern

/-- `_classify_param`, with `none` for a scalar. -/
def classifyParam (param : Text) : Option (List Int) :=
  (sizeArgsPattern.search param).map fun group =>
    (Pattern.scan refPattern none 0 group).map Text.toInt

def printedParams (func : FuncOp) : List Text :=
  (func.sig.argTypes.zip func.sizeArgs).zipIdx.map fun p => printParam p.2 p.1.1 p.1.2

def bound (nSizes : Nat) (values : List TestValue) (i : Nat) : Option TestValue :=
  if i < nSizes then none else values[i - nSizes]?

/-- The inner loop over the annotation of one array, from dimension `dim` on. -/
def sizesOf (v : TestValue) : Nat → List Int → List (Int × Nat) →
    Except Failure (List (Int × Nat))
  | _, [], sizeVal => .ok sizeVal
  | dim, ref :: refs, sizeVal =>
    if ref < 0 then sizesOf v (dim + 1) refs sizeVal
    else do
      let dims ← v.shape
      match dims[dim]? with
      | none => .error .indexError
      | some n => sizesOf v (dim + 1) refs ((ref, n) :: sizeVal)

/-- The outer loop over the parameters from position `i` on. -/
def resolveSizes (nSizes : Nat) (values : List TestValue) : Nat → List (Option (List Int)) →
    List (Int × Nat) → Except Failure (List (Int × Nat))
  | _, [], sizeVal => .ok sizeVal
  | i, none :: params, sizeVal => resolveSizes nSizes values (i + 1) params sizeVal
  | i, some refs :: params, sizeVal =>
    match bound nSizes values i with
    | none => resolveSizes nSizes values (i + 1) params sizeVal
    | some v => do
      let sizeVal ← sizesOf v 0 refs sizeVal
      resolveSizes nSizes values (i + 1) params sizeVal

def flag (text : Text) : Text := "--input=".toList ++ text

def flagOf (nSizes : Nat) (values : List TestValue) (sizeVal : List (Int × Nat)) (i : Nat) :
    Except Failure Text :=
  if i < nSizes then
    match sizeVal.lookup (i : Int) with
    | none => .error (.unsupported (.unresolvedSize i))
    | some n => .ok (flag (Text.natText n))
  else
    match bound nSizes values i with
    | none => .error .keyError
    | some v => flag <$> payload v

def buildFlags (params : List (Option (List Int))) (values : List TestValue) :
    Except Failure (List Text) :=
  if params.length < values.length then
    .error (.unsupported (.tooFewParams params.length values.length))
  else do
    let nSizes := params.length - values.length
    let sizeVal ← resolveSizes nSizes values 0 params []
    (List.range params.length).mapM (flagOf nSizes values sizeVal)

/-- A number with a type suffix, which is what the runner supports. -/
structure Literal where
  number : Text
  suffix : Text
  isNumber : IsNumber number
  isSuffix : IsSuffix suffix

def Literal.text (l : Literal) : Text := l.number ++ l.suffix

/-- The array of these extents with the given leaf at every point. -/
def rectangular : List Nat → (List Nat → Text) → TestValue
  | [], leaf => .scalar (leaf [])
  | n :: extents, leaf =>
    .list ((List.range n).map fun i => rectangular extents fun p => leaf (i :: p))

theorem listLeaves_flatMap (vs : List TestValue) : listLeaves vs = vs.flatMap TestValue.leaves := by
  induction vs with
  | nil => rfl
  | cons v vs ih => simp [listLeaves, ih]

theorem leaves_rectangular (extents : List Nat) (leaf : List Nat → Text) :
    (rectangular extents leaf).leaves = (points extents).map leaf := by
  induction extents generalizing leaf with
  | nil => rfl
  | cons n extents ih =>
    simp [rectangular, TestValue.leaves, listLeaves_flatMap, points, List.flatMap_map, ih,
      List.map_flatMap, Function.comp_def]

theorem shape_rectangular {extents : List Nat} (positive : ∀ n ∈ extents, 1 ≤ n)
    (leaf : List Nat → Text) : (rectangular extents leaf).shape = .ok extents := by
  induction extents generalizing leaf with
  | nil => rfl
  | cons n extents ih =>
    obtain ⟨n, rfl⟩ := Nat.exists_eq_add_of_le' (positive n (by simp))
    have inner := ih (fun m hm => positive m (by simp [hm])) fun p => leaf (0 :: p)
    simp [rectangular, TestValue.shape, List.range_succ_eq_map, headShape, inner, bind, Except.bind,
      pure, Except.pure]

theorem points_head {extents : List Nat} (positive : ∀ n ∈ extents, 1 ≤ n) :
    ∃ rest, points extents = extents.map (fun _ => 0) :: rest := by
  induction extents with
  | nil => exact ⟨[], rfl⟩
  | cons n extents ih =>
    obtain ⟨n, rfl⟩ := Nat.exists_eq_add_of_le' (positive n (by simp))
    obtain ⟨rest, eq⟩ := ih fun m hm => positive m (by simp [hm])
    simp [points, List.range_succ_eq_map, eq]

theorem IsNumber.chars {n : Text} (h : IsNumber n) :
    ∀ c ∈ n, c = '-' ∨ c = '.' ∨ Text.isDigit c = true := by
  have sign : ∀ s : Text, s = [] ∨ s = ['-'] → ∀ c ∈ s, c = '-' := by
    rintro s (rfl | rfl) c hc
    · cases hc
    · exact List.mem_singleton.mp hc
  cases h with
  | @whole s ds isSign digits =>
    intro c hc
    simp only [List.append_nil, List.mem_append] at hc
    rcases hc with hc | hc
    · exact .inl (sign s isSign c hc)
    · exact .inr (.inr (digits.2 c hc))
  | @fraction s ds fs isSign digits fraction =>
    intro c hc
    simp only [List.mem_append, List.mem_cons] at hc
    rcases hc with hc | hc | hc | hc
    · exact .inl (sign s isSign c hc)
    · exact .inr (.inr (digits.2 c hc))
    · exact .inr (.inl hc)
    · exact .inr (.inr (fraction.2 c hc))

theorem elemType_literal (l : Literal) : elemType l.text = .ok l.suffix := by
  have skip : elemTypePattern.search (l.number ++ l.suffix) =
      elemTypePattern.search l.suffix := by
    apply Pattern.search_fails
    intro u v eq nonempty
    obtain ⟨c, v, rfl⟩ := List.exists_cons_of_ne_nil nonempty
    have other : (c == 'i' || c == 'u' || c == 'f') = false ∧ c ≠ 'b' := by
      rcases l.isNumber.chars c (by simp [eq]) with rfl | rfl | digit
      · decide
      · decide
      · have ne : ∀ d ∈ ['-', '.', 'i', 'u', 'f', 'b'], c ≠ d := by
          rintro d hd rfl
          rw [isDigit_mark hd] at digit
          cases digit
        simp [ne]
    apply Pattern.bind_nil
    apply Pattern.orElse_nil (Pattern.bind_nil (Pattern.char_nil _ other.1))
    apply Pattern.text_eq_nil
    intro start
    exact other.2 (List.cons_prefix_cons.mp start).1.symm
  have found : elemTypePattern.first l.suffix = some (l.suffix, []) := by
    apply Pattern.first_bind (first_typeSuffix l.isSuffix)
    exact Pattern.first_bind (a := ()) (r := []) rfl rfl
  rw [elemType, Literal.text, skip, Pattern.search_first found]

theorem stripSuffix_literal (l : Literal) : stripSuffix l.text = .ok l.number :=
  stripSuffix_number l.isNumber (.inr l.isSuffix)

theorem payload_rectangular {extents : List Nat} (rank : extents ≠ [])
    (positive : ∀ n ∈ extents, 1 ≤ n) (leaf : List Nat → Literal) :
    payload (rectangular extents fun p => (leaf p).text) =
      .ok (payloadText extents (leaf (extents.map fun _ => 0)).suffix
        ((points extents).map fun p => (leaf p).number)) := by
  have dims := shape_rectangular positive fun p => (leaf p).text
  have leaves := leaves_rectangular extents fun p => (leaf p).text
  have strips : ((points extents).map fun p => (leaf p).text).mapM stripSuffix =
      .ok ((points extents).map fun p => (leaf p).number) := by
    rw [Except.mapM_eq_ok, List.forall₂_map_left_iff, List.forall₂_map_right_iff]
    exact List.forall₂_same.mpr fun p _ => stripSuffix_literal (leaf p)
  obtain ⟨rest, eq⟩ := points_head positive
  obtain ⟨n, extents, rfl⟩ := List.exists_cons_of_ne_nil rank
  rw [rectangular] at dims leaves ⊢
  unfold payload
  simp only [dims, leaves]
  rw [eq] at strips ⊢
  simp only [List.map_cons] at strips ⊢
  simp only [elemType_literal, strips]
  rfl

end FutharkMlir
