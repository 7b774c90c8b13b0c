import FutharkMlir.Syntax.Primitive

/-! The intermediate representation the compiler reads: what `core.hpp`, `syntax.hpp`,
`gpu.hpp` and `segop.hpp` declare and the lowering looks at. A name is its string; the
tag of a `VName` is never read. -/
namespace FutharkMlir

abbrev VName := String

inductive SubExp where
  | const (v : PrimValue)
  | var (x : VName)
  deriving DecidableEq, Repr

inductive DimIndex where
  | fix (i : SubExp)
  | slice (start length stride : SubExp)
  deriving DecidableEq, Repr

/-- The parser builds the first two forms only. -/
inductive Ty where
  | prim (t : PrimType)
  | array (elem : PrimType) (shape : List SubExp)
  | acc
  | mem
  deriving DecidableEq, Repr

structure Param where
  name : VName
  ty : Ty
  deriving DecidableEq, Repr

structure PatElem where
  name : VName
  ty : Ty
  deriving DecidableEq, Repr

inductive Attr where
  | atom (name : String)
  | int (i : Int)
  | comp (name : String) (args : List Attr)

/-- The forms without arguments are those every lowering refuses. -/
inductive BasicOp where
  | subExp (se : SubExp)
  | opaqueOp
  | arrayLit (values : List SubExp) (t : Ty)
  | arrayVal
  | unOp
  | binOp (op : BinOp) (op0 op1 : SubExp)
  | cmpOp (op : CmpOp) (op0 op1 : SubExp)
  | convOp (op : ConvOp) (op0 : SubExp)
  | assert
  | index (arr : VName) (dims : List DimIndex)
  | update
  | flatIndex
  | flatUpdate
  | concat (dim : Int) (arrs : List VName) (total : SubExp)
  | manifest
  | iota (n x s : SubExp) (t : IntType)
  | replicate (shape : List SubExp) (val : SubExp)
  | scratch (type : PrimType) (dims : List SubExp)
  | reshape (op0 : SubExp) (dimBegin dimEnd : Nat) (reshapedDim remainder : List SubExp)
  | rearrange (arr : VName) (perm : List Nat)
  deriving DecidableEq, Repr

inductive SegLevel where
  | thread
  | block
  | threadInBlock
  deriving DecidableEq, Repr

structure SegSpace where
  flatId : VName
  dims : List (VName × SubExp)
  deriving DecidableEq, Repr

inductive LoopForm where
  | forLoop (i : VName) (t : IntType) (bound : SubExp)
  | whileLoop (cond : VName)
  deriving DecidableEq, Repr

mutual

inductive Exp where
  | basicOp (op : BasicOp)
  | apply (fname : String) (args : List SubExp) (retTypes : List Ty)
  | hostOp (op : HostOp)
  | subExp (se : SubExp)
  | ite (cond : SubExp) (thenBody elseBody : Body) (retType : List Ty)
  | loop (merge : List (Param × SubExp)) (form : LoopForm) (body : Body)

/-- Statements and results; a kernel body is one too. -/
inductive Body where
  | mk (stms : List Stm) (result : List SubExp)

inductive Stm where
  | mk (pat : List PatElem) (exp : Exp)

inductive HostOp where
  | segOp (op : SegOp)
  | sizeOp
  | gpuBody

inductive Lambda where
  | mk (params : List Param) (ret : List Ty) (body : Body)

inductive SegBinOp where
  | mk (lambda : Lambda) (neutral : List SubExp) (shape : List SubExp)

inductive HistOp where
  | mk (dest : List VName) (lambda : Lambda)

inductive SegOp where
  | segMap (lvl : SegLevel) (space : SegSpace) (ret : List Ty) (body : Body)
  | segRed (lvl : SegLevel) (space : SegSpace) (ret : List Ty) (body : Body)
      (ops : List SegBinOp)
  | segScan (lvl : SegLevel) (space : SegSpace) (ret : List Ty) (body : Body)
      (ops : List SegBinOp) (postOp : Lambda)
  | segHist (lvl : SegLevel) (space : SegSpace) (ret : List Ty) (body : Body)
      (ops : List HistOp)

end

/-- Of the entry point only its presence is recorded by the parser. -/
structure FunDef where
  entry : Bool
  attrs : List Attr
  name : String
  retType : List Ty
  params : List Param
  body : Body

structure Prog where
  consts : List Stm
  funs : List FunDef

def Body.stms : Body → List Stm
  | .mk stms _ => stms

def Body.result : Body → List SubExp
  | .mk _ result => result

def Stm.pat : Stm → List PatElem
  | .mk pat _ => pat

def Stm.exp : Stm → Exp
  | .mk _ exp => exp

end FutharkMlir
