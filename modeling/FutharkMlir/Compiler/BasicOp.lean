import FutharkMlir.Compiler.Values

namespace FutharkMlir

variable (cfg : Config)

/-- An `arith` operation whose result has the type of its first operand. -/
def arithOp (op : ArithOp) (op0 op1 : Value) : Emit Value :=
  Emit.create1 (.arith op) [op0, op1] op0.ty

/-- The same, after `assert(!isTensor)`. -/
def scalarArithOp (op : ArithOp) (op0 op1 : Value) : Emit Value := do
  assertThat cfg (!op0.ty.isTensor)
  arithOp op op0 op1

/-- Addition and multiplication of tensors; the destination gets no sizes. -/
def elementwiseOp (code : OpCode) (op0 op1 : Value) : Emit Value := do
  let emptyTensor ← tensorEmpty op0.ty []
  Emit.create1 code [op0, op1, emptyTensor] op0.ty

def lowerBinOp (binOp : BinOp) (op0 op1 : Value) : Emit Value :=
  match binOp with
  | .add _ _ => if op0.ty.isTensor then elementwiseOp .linalgAdd op0 op1 else arithOp .addi op0 op1
  | .mul _ _ => if op0.ty.isTensor then elementwiseOp .linalgMul op0 op1 else arithOp .muli op0 op1
  | .sub _ _ => scalarArithOp cfg .subi op0 op1
  | .squot _ => scalarArithOp cfg .divsi op0 op1
  | .sdivUp _ => scalarArithOp cfg .ceildivsi op0 op1
  | .fadd _ => scalarArithOp cfg .addf op0 op1
  | .fmul _ => scalarArithOp cfg .mulf op0 op1
  | .fsub _ => scalarArithOp cfg .subf op0 op1
  | .fdiv _ => scalarArithOp cfg .divf op0 op1
  | .fmax _ => scalarArithOp cfg .maxnumf op0 op1
  | .fpow _ => do
    assertThat cfg (!op0.ty.isTensor)
    Emit.create1 (.math .powf) [op0, op1] op0.ty
  | _ => Emit.undefined

def cmpi (p : CmpIPredicate) (lhs rhs : Value) : Emit Value :=
  Emit.create1 (.cmpi p) [lhs, rhs] lhs.ty.i1SameShape

def cmpf (p : CmpFPredicate) (lhs rhs : Value) : Emit Value :=
  Emit.create1 (.cmpf p) [lhs, rhs] lhs.ty.i1SameShape

def lowerCmpOp (cmpOp : CmpOp) (lhs rhs : Value) : Emit Value :=
  match cmpOp with
  | .eq (.int _) => cmpi .eq lhs rhs
  | .eq (.float _) => cmpf .oeq lhs rhs
  | .eq .bool => Emit.undefined
  | .eq .unit => Emit.undefined
  | .ult _ => cmpi .ult lhs rhs
  | .ule _ => cmpi .ule lhs rhs
  | .slt _ => cmpi .slt lhs rhs
  | .sle _ => cmpi .sle lhs rhs
  | .flt _ => cmpf .olt lhs rhs
  | .fle _ => cmpf .ole lhs rhs
  | .llt => Emit.undefined
  | .lle => Emit.undefined

def lowerConvOp (convOp : ConvOp) (op0 : Value) : Emit Value :=
  match convOp with
  | .zext _ dst => Emit.create1 .extui [op0] (.int dst.getWidth)
  | .sext _ dst => Emit.create1 .extsi [op0] (.int dst.getWidth)
  | .sitofp _ dst => Emit.create1 .sitofp [op0] (.float dst)
  | _ => Emit.undefined

/-- The attributes of the constants before the first variable, and whether there is none. -/
def constantPrefix : List SubExp → Except Err (List TypedAttr × Bool)
  | [] => .ok ([], true)
  | .const c :: rest => do
    let attr ← getPrimValueAttr c
    let (attrs, allConstants) ← constantPrefix rest
    return (attr :: attrs, allConstants)
  | .var _ :: _ => .ok ([], false)

def lowerArrayLit (values : List SubExp) (t : Ty) (ctx : Ctx) : Emit Value := do
  let tensorTy ← lowerTy t
  let (attrs, allConstants) ← constantPrefix values
  if allConstants then
    let (shape, elem) ← getRankedType tensorTy
    Emit.createConstant (.dense shape elem attrs) (.tensor shape elem)
  else
    let vs ← lowerSubExps ctx values
    Emit.create1 .fromElements vs tensorTy

/-- Builds a 1-D iota tensor where `result[i] = x + i*s`. -/
def createIota (n x s : Value) (elementTy : ElemTy) (dimTy : Int) : Emit Value := do
  let output ← tensorEmpty (.tensor [dimTy] elementTy) (if isDynamic dimTy then [n] else [])
  let body ← Emit.inBlock [.scalar elementTy] fun _ => do
    let idx ← Emit.create1 (.linalgIndex 0) [] .index
    let i ← indexCast idx (.scalar elementTy)
    let offset ← arithOp .muli i s
    let result ← arithOp .addi x offset
    return [result]
  let res ← Emit.create (.generic 0 [.identity 1] [.parallel]) [output] [output.ty] [body]
  indexed res 0

/-- A constant that stays an attribute, or the cast of a variable. -/
def toIndex (ctx : Ctx) : SubExp → Emit (Int ⊕ Value)
  | .const c => do
    let n ← c.getIntValue
    return .inl n
  | .var x => do
    let v ← ctx.lookup x
    let i ← indexCast v .index
    return .inr i

/-- One source dimension of a slice; `extent` is that of the result, if it keeps one. -/
structure SliceDim where
  offset : Int ⊕ Value
  size : Int ⊕ Value
  stride : Int
  extent : Option Int

/-- `tensor.extract_slice` cannot step backwards, so the stride has to be a constant. -/
def constantStride : SubExp → Except Err Int
  | .const c => do
    let n ← c.getIntValue
    if n < 1 then .error .undefined else .ok n
  | .var _ => .error .undefined

def lowerSliceDim (ctx : Ctx) : DimIndex → Emit SliceDim
  | .fix i => do
    let offset ← toIndex ctx i
    return { offset, size := .inl 1, stride := 1, extent := none }
  | .slice start length stride => do
    let offset ← toIndex ctx start
    let size ← toIndex ctx length
    let n ← constantStride stride
    let extent ← toShapeDim length
    return { offset, size, stride := n, extent := some extent }

def staticPart : Int ⊕ Value → Option Int
  | .inl n => some n
  | .inr _ => none

def dynamicPart : Int ⊕ Value → Option Value
  | .inl _ => none
  | .inr v => some v

def DimIndex.isSlice : DimIndex → Bool
  | .fix _ => false
  | .slice _ _ _ => true

/-- The index of a full index expression, cast to `index`. -/
def lowerFixed (ctx : Ctx) : DimIndex → Emit Value
  | .fix i => do
    let v ← lowerSubExp ctx i
    indexCast v .index
  | .slice _ _ _ => Emit.ub

def lowerIndex (arr : VName) (dims : List DimIndex) (ctx : Ctx) : Emit Value := do
  let tensor ← ctx.lookup arr
  if !dims.any DimIndex.isSlice then
    let indices ← dims.mapM (lowerFixed ctx)
    tensorExtract tensor indices
  else
    let slices ← dims.mapM (lowerSliceDim ctx)
    let (_, elem) ← getRankedType tensor.ty
    let offsets := slices.map SliceDim.offset
    let sizes := slices.map SliceDim.size
    let strides := slices.map SliceDim.stride
    Emit.create1
      (.tensorExtractSlice (offsets.map staticPart) (sizes.map staticPart) (strides.map some))
      (tensor :: (offsets.filterMap dynamicPart ++ sizes.filterMap dynamicPart))
      (.tensor (slices.filterMap SliceDim.extent) elem)

/-- `SaturatedInteger::desaturate`: the known one of two extents that must agree. -/
def desaturate (a b : Int) : Except Err Int :=
  if isDynamic a then .ok b
  else if isDynamic b then .ok a
  else if a = b then .ok a
  else .error .ub

def saturatedAdd (a b : Int) : Int := if isDynamic a || isDynamic b then kDynamic else a + b

/-- `tensor::ConcatOp::inferResultType`. -/
def inferConcatShape (dim : Int) (shapes : List (List Int)) : Except Err (List Int) :=
  match shapes with
  | [] => .error .ub
  | first :: _ =>
    if dim < 0 ∨ first.length ≤ dim then .error .ub
    else (List.range first.length).mapM fun i => do
      let extents ← shapes.mapM fun shape => indexed shape i
      if (i : Int) = dim then return extents.foldl saturatedAdd 0
      else extents.foldlM desaturate kDynamic

def lowerConcat (dim : Int) (arrs : List VName) (ctx : Ctx) : Emit Value := do
  let operands ← lookups ctx arrs
  let tys ← (operands.mapM fun v => getRankedType v.ty : Except Err (List (List Int × ElemTy)))
  let shape ← inferConcatShape dim (tys.map Prod.fst)
  let first ← indexed tys 0
  Emit.create1 (.concat dim) operands (.tensor shape first.2)

def lowerReshape (op0 : SubExp) (remainder : List SubExp) (ctx : Ctx) : Emit Value := do
  let src ← lowerSubExp ctx op0
  let (sourceShape, elem) ← getRankedType src.ty
  let resultShape ← toShapeType remainder
  if sourceShape = resultShape then return src
  else match cfg.getReassociationIndicesForReshape sourceShape resultShape with
    | none => Emit.undefined
    | some reassociation =>
      if resultShape.length < sourceShape.length then
        Emit.create1 (.collapseShape reassociation) [src] (.tensor resultShape elem)
      else
        Emit.create1 (.expandShape reassociation) [src] (.tensor resultShape elem)

def lowerRearrange (arr : VName) (perm : List Nat) (ctx : Ctx) : Emit Value := do
  let op ← ctx.lookup arr
  let (shape, elem) ← getRankedType op.ty
  if perm.length ≠ shape.length then Emit.undefined
  else
    let dims ← (perm.mapM (indexed shape) : Except Err (List Int))
    let destination ← tensorEmpty (.tensor dims elem) []
    Emit.create1 (.transpose perm) [op, destination] (.tensor dims elem)

/-- The index casts of the dimensions that are dynamic in the type. -/
def dynamicShapeSizes (ctx : Ctx) : List (SubExp × Int) → Emit (List Value)
  | [] => return []
  | (d, t) :: rest =>
    if isDynamic t then do
      let v ← lowerSubExp ctx d
      let size ← indexCast v .index
      let sizes ← dynamicShapeSizes ctx rest
      return size :: sizes
    else dynamicShapeSizes ctx rest

/-- The `tensor.dim` of every dynamic dimension of a value, counted from `i`. -/
def dynamicDimSizes (v : Value) : Nat → List Int → Emit (List Value)
  | _, [] => return []
  | i, d :: rest =>
    if isDynamic d then do
      let size ← tensorDim v i
      let sizes ← dynamicDimSizes v (i + 1) rest
      return size :: sizes
    else dynamicDimSizes v (i + 1) rest

/-- The inner extents, element type and their sizes, and the tensor to broadcast. -/
def replicatedValue (op : Value) : Emit (List Int × ElemTy × List Value × Value) :=
  match op.ty with
  | .tensor dims elem => do
    let sizes ← dynamicDimSizes op 0 dims
    return (dims, elem, sizes, op)
  | .scalar elem => do
    let t ← Emit.create1 .fromElements [op] (.tensor [] elem)
    return ([], elem, [], t)

def lowerReplicate (dims : List SubExp) (val : SubExp) (ctx : Ctx) : Emit Value := do
  let op ← lowerSubExp ctx val
  if dims = [] then return op
  else
    let shape ← toShapeType dims
    let pairs ← zipEqual cfg dims shape
    let outerSizes ← dynamicShapeSizes ctx pairs
    let (innerShape, elem, innerSizes, source) ← replicatedValue op
    let destination ← tensorEmpty (.tensor (shape ++ innerShape) elem) (outerSizes ++ innerSizes)
    Emit.create1 (.broadcast (List.range shape.length)) [source, destination] destination.ty

def lowerScratch (type : PrimType) (dims : List SubExp) (ctx : Ctx) : Emit Value := do
  let baseTy ← lowerPrimType type
  let shape ← toShapeType dims
  let pairs ← zipEqual cfg dims shape
  let dynamicSizes ← dynamicShapeSizes ctx pairs
  tensorEmpty (.tensor shape baseTy) dynamicSizes

def lowerIota (n x s : SubExp) (t : IntType) (ctx : Ctx) : Emit Value := do
  let n' ← lowerSubExp ctx n
  let count ← indexCast n' .index
  let x' ← lowerSubExp ctx x
  let s' ← lowerSubExp ctx s
  let dimTy ← toShapeDim n
  createIota count x' s' (.int t.getWidth) dimTy

def lowerBasicOp (op : BasicOp) (ctx : Ctx) : Emit Value :=
  match op with
  | .subExp se => lowerSubExp ctx se
  | .arrayLit values t => lowerArrayLit values t ctx
  | .binOp op op0 op1 => do
    let op0 ← lowerSubExp ctx op0
    let op1 ← lowerSubExp ctx op1
    lowerBinOp cfg op op0 op1
  | .iota n x s t => lowerIota n x s t ctx
  | .concat dim arrs _ => lowerConcat dim arrs ctx
  | .index arr dims => lowerIndex arr dims ctx
  | .convOp op op0 => do
    let op0 ← lowerSubExp ctx op0
    lowerConvOp op op0
  | .reshape op0 _ _ _ remainder => lowerReshape cfg op0 remainder ctx
  | .rearrange arr perm => lowerRearrange arr perm ctx
  | .replicate shape val => lowerReplicate cfg shape val ctx
  | .scratch type dims => lowerScratch cfg type dims ctx
  | .cmpOp op op0 op1 => do
    let lhs ← lowerSubExp ctx op0
    let rhs ← lowerSubExp ctx op1
    lowerCmpOp op lhs rhs
  | .opaqueOp | .arrayVal | .unOp | .flatIndex | .update | .assert | .flatUpdate | .manifest =>
    Emit.undefined

end FutharkMlir
