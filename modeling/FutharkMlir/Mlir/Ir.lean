import FutharkMlir.Syntax.Core

/-! The MLIR the compiler builds, in MLIR's own generic form: an operation is a code
with its attributes, operand values, result values and regions of one block each. -/
namespace FutharkMlir

/-- `mlir::ShapedType::kDynamic`. -/
def kDynamic : Int := -9223372036854775808

def isDynamic (d : Int) : Bool := d == kDynamic

inductive ElemTy where
  | int (width : Nat)
  | float (t : FloatType)
  | index
  deriving DecidableEq, Repr

inductive MlirTy where
  | scalar (e : ElemTy)
  | tensor (shape : List Int) (elem : ElemTy)
  deriving DecidableEq, Repr

namespace MlirTy

abbrev int (width : Nat) : MlirTy := .scalar (.int width)
abbrev float (t : FloatType) : MlirTy := .scalar (.float t)
abbrev index : MlirTy := .scalar .index

/-- `getElementTypeOrSelf`. -/
def elemOrSelf : MlirTy → MlirTy
  | .scalar e => .scalar e
  | .tensor _ e => .scalar e

def i1SameShape : MlirTy → MlirTy
  | .scalar _ => .int 1
  | .tensor shape _ => .tensor shape (.int 1)

def isTensor : MlirTy → Bool
  | .scalar _ => false
  | .tensor _ _ => true

def isIntOrFloat : MlirTy → Bool
  | .scalar .index => false
  | .scalar _ => true
  | .tensor _ _ => false

end MlirTy

/-- Two static extents agree, or one of them is unknown. -/
def dimCompatible (a b : Int) : Bool := isDynamic a || isDynamic b || a == b

/-- `mlir::tensor::CastOp::areCastCompatible`. -/
def areCastCompatible : MlirTy → MlirTy → Bool
  | .tensor s e, .tensor s' e' =>
    e == e' && s.length == s'.length && (s.zip s').all fun p => dimCompatible p.1 p.2
  | _, _ => false

inductive TypedAttr where
  | integer (width : Nat) (v : BitVec width)
  | float (t : FloatType) (v : FloatLit)
  | index (v : Int)
  deriving DecidableEq, Repr

def TypedAttr.elem : TypedAttr → ElemTy
  | .integer width _ => .int width
  | .float t _ => .float t
  | .index _ => .index

inductive ConstAttr where
  | scalar (a : TypedAttr)
  | dense (shape : List Int) (elem : ElemTy) (vals : List TypedAttr)
  deriving DecidableEq, Repr

/-- An SSA value, numbered within its function as MLIR prints it. A value that an
`arith.constant` defines carries its attribute, which is what `matchPattern` sees. -/
structure Value where
  func : String
  id : Nat
  ty : MlirTy
  const : Option ConstAttr := none
  deriving DecidableEq, Repr

inductive ArithOp where
  | addi | muli | subi | divsi | ceildivsi
  | addf | mulf | subf | divf | maxnumf
  deriving DecidableEq, Repr

inductive CmpIPredicate where
  | eq | slt | sle | ult | ule
  deriving DecidableEq, Repr

inductive CmpFPredicate where
  | oeq | olt | ole
  deriving DecidableEq, Repr

inductive MathOp where
  | sqrt | rsqrt | cbrt | exp | exp2 | expm1 | log | log2 | log10 | log1p
  | sin | cos | tan | asin | acos | atan | sinh | cosh | tanh | asinh | acosh | atanh
  | erf | erfc | ceil | floor | trunc | roundeven | isnan | isinf | ctpop | ctlz | cttz
  | atan2 | copysign | powf | fma
  deriving DecidableEq, Repr

inductive IteratorType where
  | parallel | reduction
  deriving DecidableEq, Repr

/-- A projection of the iteration dimensions: the only affine maps that are built. -/
structure AffineMap where
  rank : Nat
  results : List Nat
  deriving DecidableEq, Repr

def AffineMap.identity (rank : Nat) : AffineMap := ⟨rank, List.range rank⟩

structure DotDims where
  lhsBatching : List Int
  rhsBatching : List Int
  lhsContracting : List Int
  rhsContracting : List Int
  lhsRagged : List Int := []
  rhsGroup : List Int := []
  deriving DecidableEq, Repr

/-- Where an offset, size or stride is `none`, the next dynamic operand supplies it. -/
inductive OpCode where
  | constant (attr : ConstAttr)
  | arith (op : ArithOp)
  | cmpi (p : CmpIPredicate)
  | cmpf (p : CmpFPredicate)
  | extui
  | extsi
  | sitofp
  | indexCast
  | select
  | math (op : MathOp)
  | call (callee : String)
  | scfIf
  | scfFor
  | scfForall
  | inParallel
  | parallelInsertSlice (offsets sizes strides : List (Option Int))
  | tensorCast
  | tensorExtract
  | tensorExtractSlice (offsets sizes strides : List (Option Int))
  | tensorInsert
  | tensorEmpty
  | tensorDim
  | fromElements
  | collapseShape (reassociation : List (List Nat))
  | expandShape (reassociation : List (List Nat))
  | concat (dim : Int)
  | fill
  | matmul
  | linalgAdd
  | linalgMul
  | transpose (perm : List Nat)
  | broadcast (dims : List Nat)
  | generic (numInputs : Nat) (indexingMaps : List AffineMap) (iterTypes : List IteratorType)
  | linalgIndex (dim : Nat)
  | tieShape
  | scatter (dimensionMap : List Nat) (uniqueIndices : Bool)
  | dotGeneral (dims : DotDims)
  | raggedDot (dims : DotDims)
  | sort (dimension : Nat) (isStable : Bool)
  | compareLt
  deriving DecidableEq, Repr

mutual

inductive Op where
  | mk (code : OpCode) (operands results : List Value) (regions : List Block)

/-- The block arguments, the operations and the operands of the terminator. -/
inductive Block where
  | mk (args : List Value) (ops : List Op) (yield : List Value)

end

def Op.code : Op → OpCode
  | .mk code _ _ _ => code

def Op.operands : Op → List Value
  | .mk _ operands _ _ => operands

def Op.results : Op → List Value
  | .mk _ _ results _ => results

def Op.regions : Op → List Block
  | .mk _ _ _ regions => regions

def Block.args : Block → List Value
  | .mk args _ _ => args

def Block.ops : Block → List Op
  | .mk _ ops _ => ops

def Block.yield : Block → List Value
  | .mk _ _ yield => yield

end FutharkMlir
