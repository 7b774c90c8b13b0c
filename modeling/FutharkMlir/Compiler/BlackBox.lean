import FutharkMlir.Compiler.BasicOp

/-! Applications of functions that have no definition to call: black boxes, recognised by
an attribute, and Futhark's primitive functions, recognised by name. -/
namespace FutharkMlir

inductive BlackBox where
  | matMul | dotGeneral | raggedDot | argSort | scatter
  deriving DecidableEq, Repr

def toBlackBox (name : String) : Except Err BlackBox :=
  if name = "matmul" then .ok .matMul
  else if name = "dot_general" then .ok .dotGeneral
  else if name = "ragged_dot" then .ok .raggedDot
  else if name = "argsort" then .ok .argSort
  else if name = "scatter" then .ok .scatter
  else .error .undefined

/-- The first `blackbox` found in the attributes. -/
def maybeBlackBox : List Attr → Except Err (Option BlackBox)
  | [] => .ok none
  | .comp name [.atom arg] :: rest =>
    if name = "blackbox" then do
      let b ← toBlackBox arg
      return some b
    else maybeBlackBox rest
  | _ :: rest => maybeBlackBox rest

variable (cfg : Config)

/-- Arguments are counted from the back: size parameters come first. -/
def getArg (args : List Value) (numNonSizeArgs i : Nat) : Except Err Value :=
  if args.length < numNonSizeArgs then .error .ub
  else indexed args (args.length - numNonSizeArgs + i)

def zeroAttr : ElemTy → TypedAttr
  | .int width => .integer width 0
  | .float t => .float t (.finite 0)
  | .index => .index 0

/-- The signature is `(d0, d1, d3, A : [d4][d5]t, B : [d5][d6]t) -> [d4][d6]t`, and the
sizes are read off the matrices. -/
def lowerMatMul (args : List Value) (retTypes : List MlirTy) : Emit (List Value) := do
  assertThat cfg (args.length == 5)
  assertThat cfg (retTypes.length == 1)
  let x ← indexed args 3
  let y ← indexed args 4
  let m ← tensorDim x 0
  let n ← tensorDim y 1
  let retTy ← indexed retTypes 0
  let (shape, elem) ← getRankedType retTy
  let sizes ← zipEqual cfg [m, n] shape
  let dynamicSizes := sizes.filterMap fun p => if isDynamic p.2 then some p.1 else none
  let zero ← Emit.createConstant (.scalar (zeroAttr elem)) (.scalar elem)
  let empty ← tensorEmpty (.tensor shape elem) dynamicSizes
  let z ← Emit.create1 .fill [zero, empty] empty.ty
  Emit.create .matmul [x, y, z] [z.ty] []

def TypedAttr.toInt : TypedAttr → Except Err Int
  | .integer _ v => .ok v.toInt
  | _ => .error .undefined

/-- The elements of a constant integer tensor; an empty tensor need not be a constant. -/
def getConstantIntTensor (x : Value) : Except Err (List Int) := do
  let (shape, _) ← getRankedType x.ty
  if shape.all (fun d => !isDynamic d) && shape.contains 0 then return []
  else match x.const with
    | some (.dense _ _ vals) => vals.mapM TypedAttr.toInt
    | _ => .error .undefined

def getConstantInt (x : Value) : Except Err Int :=
  match x.const with
  | some (.scalar (.integer _ v)) => .ok v.toInt
  | some (.scalar (.index n)) => .ok n
  | _ => .error .undefined

def indexedInt {α : Type} (xs : List α) (i : Int) : Except Err α :=
  if i < 0 then .error .ub else indexed xs i.toNat

/-- The extents at the positions that are in none of the given lists, in order. -/
def remainingDims (shape : List Int) (excluded : List Int) : List Int :=
  (shape.zipIdx.filter fun p => !excluded.contains (p.2 : Int)).map Prod.fst

def dotGeneralShape (lhsShape rhsShape : List Int) (d : DotDims) : Except Err (List Int) := do
  let batch ← d.lhsBatching.mapM (indexedInt lhsShape)
  return batch ++ remainingDims lhsShape (d.lhsBatching ++ d.lhsContracting)
    ++ remainingDims rhsShape (d.rhsBatching ++ d.rhsContracting)

def lowerDotGeneral (args : List Value) (retTypes : List MlirTy) : Emit (List Value) := do
  assertThat cfg (6 ≤ args.length)
  assertThat cfg (retTypes.length == 1)
  let lhs ← getArg args 6 0
  let rhs ← getArg args 6 1
  let a2 ← getArg args 6 2
  let lhsBatching ← getConstantIntTensor a2
  let a3 ← getArg args 6 3
  let rhsBatching ← getConstantIntTensor a3
  let a4 ← getArg args 6 4
  let lhsContracting ← getConstantIntTensor a4
  let a5 ← getArg args 6 5
  let rhsContracting ← getConstantIntTensor a5
  let (lhsShape, elem) ← getRankedType lhs.ty
  let (rhsShape, _) ← getRankedType rhs.ty
  let dims : DotDims := { lhsBatching, rhsBatching, lhsContracting, rhsContracting }
  let resultShape ← dotGeneralShape lhsShape rhsShape dims
  Emit.create (.dotGeneral dims) [lhs, rhs] [.tensor resultShape elem] []

def raggedDotShape (lhsShape rhsShape : List Int) (g lhsRaggedDim : Int) (d : DotDims) :
    Except Err (List Int) := do
  let batch ← d.lhsBatching.mapM (indexedInt lhsShape)
  return (if d.lhsContracting.contains lhsRaggedDim then [g] else []) ++ batch
    ++ remainingDims lhsShape (d.lhsBatching ++ d.lhsContracting)
    ++ remainingDims rhsShape (d.rhsBatching ++ d.rhsContracting ++ d.rhsGroup)

def lowerRaggedDot (args : List Value) (retTypes : List MlirTy) : Emit (List Value) := do
  assertThat cfg (9 ≤ args.length)
  assertThat cfg (retTypes.length == 1)
  let lhs ← getArg args 9 0
  let rhs ← getArg args 9 1
  let groupSizes ← getArg args 9 2
  let a3 ← getArg args 9 3
  let lhsBatching ← getConstantIntTensor a3
  let a4 ← getArg args 9 4
  let rhsBatching ← getConstantIntTensor a4
  let a5 ← getArg args 9 5
  let lhsContracting ← getConstantIntTensor a5
  let a6 ← getArg args 9 6
  let rhsContracting ← getConstantIntTensor a6
  let a7 ← getArg args 9 7
  let lhsRaggedDim ← getConstantInt a7
  let a8 ← getArg args 9 8
  let rhsGroup ← getConstantIntTensor a8
  let (lhsShape, elem) ← getRankedType lhs.ty
  let (rhsShape, _) ← getRankedType rhs.ty
  if rhsShape.any isDynamic then
    Tracked.throw (.runtime "ragged_dot: shape of rhs tensor must be static.")
  else
    let (groupShape, _) ← getRankedType groupSizes.ty
    let g ← match groupShape.getLast? with
      | some g => pure g
      | none => Emit.ub
    let dims : DotDims :=
      { lhsBatching, rhsBatching, lhsContracting, rhsContracting,
        lhsRagged := [lhsRaggedDim], rhsGroup }
    let resultShape ← raggedDotShape lhsShape rhsShape g lhsRaggedDim dims
    Emit.create (.raggedDot dims) [lhs, rhs, groupSizes] [.tensor resultShape elem] []

/-- A basic ascending sort of values and indices together, keyed on the values. -/
def lowerArgSort (args : List Value) (retTypes : List MlirTy) : Emit (List Value) := do
  assertThat cfg (2 ≤ args.length)
  assertThat cfg (retTypes.length == 1)
  let inputs ← getArg args 2 0
  let stableArg ← getArg args 2 1
  let stable ← getConstantInt stableArg
  let (shape, elem) ← getRankedType inputs.ty
  match shape with
  | [d] =>
    if isDynamic d then
      Tracked.throw (.runtime "argsort: shape of input tensor must be static.")
    else
      let n ← tensorDim inputs 0
      let zero ← Emit.createConstant (.scalar (.integer 64 0)) (.int 64)
      let one ← Emit.createConstant (.scalar (.integer 64 1)) (.int 64)
      let indices ← createIota n zero one (.int 64) d
      let valScalar := MlirTy.tensor [] elem
      let idxScalar := MlirTy.tensor [] (.int 64)
      let body ← Emit.inBlock [valScalar, valScalar, idxScalar, idxScalar] fun block => do
        let x ← indexed block 0
        let y ← indexed block 1
        let lt ← Emit.create1 .compareLt [x, y] valScalar.i1SameShape
        return [lt]
      let op ← Emit.create (.sort 0 (stable != 0)) [inputs, indices] [inputs.ty, indices.ty] [body]
      let result ← indexed op 1
      return [result]
  | _ => Emit.undefined

def lowerScatter (args : List Value) (retTypes : List MlirTy) : Emit (List Value) := do
  assertThat cfg (3 ≤ args.length)
  assertThat cfg (retTypes.length == 1)
  let dest ← getArg args 3 0
  let indices ← getArg args 3 1
  let values ← getArg args 3 2
  let (_, elem) ← getRankedType values.ty
  let body ← Emit.inBlock [.scalar elem, .scalar elem] fun blk => do
    let update ← indexed blk 0
    return [update]
  Emit.create (.scatter [0] false) [values, indices, dest] [dest.ty] [body]

def lowerBlackBox (b : BlackBox) (args : List Value) (retTypes : List MlirTy) :
    Emit (List Value) :=
  match b with
  | .matMul => lowerMatMul cfg args retTypes
  | .dotGeneral => lowerDotGeneral cfg args retTypes
  | .raggedDot => lowerRaggedDot cfg args retTypes
  | .argSort => lowerArgSort cfg args retTypes
  | .scatter => lowerScatter cfg args retTypes

def isDigit (c : Char) : Bool := '0' ≤ c && c ≤ '9'

/-- Drops the operand width that ends the name of a primitive function, and the
underscore that separates it: "sqrt32" -> "sqrt", "log10_64" -> "log10". -/
def intrinsicBaseName (name : String) : Option String :=
  let scan := name.toList.reverse.dropWhile isDigit
  if scan.length = name.toList.length then none
  else
    let base := match scan with
      | '_' :: rest => rest
      | scan => scan
    if base = [] then none else some (String.ofList base.reverse)

inductive Arity where
  | unary | binary | ternary
  deriving DecidableEq, Repr

def Arity.count : Arity → Nat
  | .unary => 1
  | .binary => 2
  | .ternary => 3

/-- The `math` operation of every primitive function that is lowered. -/
def intrinsicTable : List (String × Arity × MathOp) :=
  [("sqrt", .unary, .sqrt), ("rsqrt", .unary, .rsqrt), ("cbrt", .unary, .cbrt),
   ("exp", .unary, .exp), ("exp2", .unary, .exp2), ("expm1", .unary, .expm1),
   ("log", .unary, .log), ("log2", .unary, .log2), ("log10", .unary, .log10),
   ("log1p", .unary, .log1p), ("sin", .unary, .sin), ("cos", .unary, .cos),
   ("tan", .unary, .tan), ("asin", .unary, .asin), ("acos", .unary, .acos),
   ("atan", .unary, .atan), ("sinh", .unary, .sinh), ("cosh", .unary, .cosh),
   ("tanh", .unary, .tanh), ("asinh", .unary, .asinh), ("acosh", .unary, .acosh),
   ("atanh", .unary, .atanh), ("erf", .unary, .erf), ("erfc", .unary, .erfc),
   ("ceil", .unary, .ceil), ("floor", .unary, .floor), ("trunc", .unary, .trunc),
   ("round", .unary, .roundeven), ("isnan", .unary, .isnan), ("isinf", .unary, .isinf),
   ("popc", .unary, .ctpop), ("clz", .unary, .ctlz), ("ctz", .unary, .cttz),
   ("atan2", .binary, .atan2), ("copysign", .binary, .copysign),
   ("fma", .ternary, .fma), ("mad", .ternary, .fma)]

/-- The tests of a float class give an `i1`; every other operation keeps the type of its
first operand. -/
def MathOp.resultTy (op : MathOp) (operand : MlirTy) : MlirTy :=
  match op with
  | .isnan | .isinf => operand.i1SameShape
  | _ => operand

def createMath (op : MathOp) (args : List Value) : Emit (List Value) := do
  let first ← indexed args 0
  let res ← Emit.create1 (.math op) args (op.resultTy first.ty)
  return [res]

def lowerIntrinsic (fname : String) (args : List Value) : Emit (List Value) :=
  if "cond_".toList.isPrefixOf fname.toList then
    match args with
    | [c, t, f] => do
      let res ← Emit.create1 .select [c, t, f] t.ty
      return [res]
    | _ => Emit.undefined
  else match intrinsicBaseName fname with
    | none => Tracked.throw (.runtime s!"no definition of function '{fname}'")
    | some n =>
      match intrinsicTable.lookup n with
      | some (arity, op) =>
        if args.length = arity.count then createMath op args else Emit.undefined
      | none => Tracked.throw
        (.runtime s!"'{fname}' is neither defined in the IR nor a primitive function we lower")

end FutharkMlir
