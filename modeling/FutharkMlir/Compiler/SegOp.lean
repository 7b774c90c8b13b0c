import FutharkMlir.Compiler.BasicOp

/-! Lowering of the segmented operations. The bodies of kernels and operators are lowered
by functions passed in, which `lowerExp` supplies. -/
namespace FutharkMlir

/-- A dimension of an iteration space: its gtid, its lowered bound, its position. -/
structure Dim where
  id : VName
  value : Value
  isDynamic : Bool
  index : Nat

abbrev IterationSpace := List Dim

/-- An array load that is a function of the iteration space alone. -/
structure AffineRead where
  result : VName
  array : VName
  indexMap : AffineMap
  deriving DecidableEq, Repr

def requireThreadLevel : SegLevel → Except Err Unit
  | .thread => .ok ()
  | _ => .error .undefined

def lowerSegDims (ctx : Ctx) : Nat → List (VName × SubExp) → Emit IterationSpace
  | _, [] => return []
  | i, (id, dim) :: rest => do
    let value ← lowerSubExp ctx dim
    let extent ← toShapeDim dim
    let dims ← lowerSegDims ctx (i + 1) rest
    return { id, value, isDynamic := FutharkMlir.isDynamic extent, index := i } :: dims

def lowerSegSpace (space : SegSpace) (ctx : Ctx) : Emit IterationSpace :=
  lowerSegDims ctx 0 space.dims

def gtidIndex (iterSpace : IterationSpace) : DimIndex → Option Nat
  | .fix (.var x) => (iterSpace.find? fun d => d.id = x).map Dim.index
  | _ => none

/-- Only direct uses of gtids are recognised as affine. -/
def toAffineRead (vn : VName) (exp : Exp) (iterSpace : IterationSpace) : Option AffineRead :=
  match exp with
  | .basicOp (.index arr dims) =>
    (dims.mapM (gtidIndex iterSpace)).map fun used => ⟨vn, arr, ⟨iterSpace.length, used⟩⟩
  | _ => none

def findSegOpAffineReads (iterSpace : IterationSpace) : List Stm → Except Err (List AffineRead)
  | [] => .ok []
  | .mk [elem] exp :: rest => do
    let reads ← findSegOpAffineReads iterSpace rest
    return (toAffineRead elem.name exp iterSpace).toList ++ reads
  | .mk _ _ :: _ => .error .undefined

def lowerSegOpBaseType : Ty → Except Err ElemTy
  | .prim t => lowerPrimType t
  | _ => .error .undefined

def segOpTypes (dims : List (VName × SubExp)) (ret : List Ty) : Except Err (List MlirTy) :=
  ret.mapM fun t => do
    let baseTy ← lowerSegOpBaseType t
    let shapeTy ← toShapeType (dims.map Prod.snd)
    return .tensor shapeTy baseTy

def spaceSizes (dims : List Dim) : Emit (List Value) :=
  (dims.filter Dim.isDynamic).mapM fun d => indexCast d.value .index

/-- Bind the gtids to the iteration indices of the enclosing `linalg.generic`. -/
def bindGtids : IterationSpace → Ctx → Emit Ctx
  | [], ctx => return ctx
  | d :: rest, ctx => do
    let idx ← Emit.create1 (.linalgIndex d.index) [] .index
    let val ← indexCast idx d.value.ty
    bindGtids rest (ctx.insert d.id val)

def bindParams (ctx : Ctx) (params : List Param) (vs : List Value) : Ctx :=
  ctx.insertAll ((params.zip vs).map fun p => (p.1.name, p.2))

/-- `llvm::drop_begin`, whose count nothing checks. -/
def dropBegin {α : Type} (xs : List α) (n : Nat) : Except Err (List α) :=
  if xs.length < n then .error .ub else .ok (xs.drop n)

variable (cfg : Config)

/-- Bind the first parameters of an operator to the accumulators, the others to the
results of the kernel. -/
def bindOperands (ctx : Ctx) (params : List Param) (accs returns : List Value) :
    Except Err Ctx := do
  assertThat cfg (params.length == accs.length + returns.length)
  let rest ← dropBegin params accs.length
  let pairs ← zipEqual cfg rest returns
  return (bindParams ctx params accs).insertAll (pairs.map fun p => (p.1.name, p.2))

/-- The affine reads are bound to the block arguments and their statements skipped; the
others are lowered in order. -/
def lowerSegOpKernelBody (blockArgs : List Value) (reads : List AffineRead)
    (iterSpace : IterationSpace) (lowerStms : List VName → Ctx → Lower Ctx)
    (result : List SubExp) (ctx : Ctx) : Lower (List Value × Ctx) := do
  let skipLowering := reads.map AffineRead.result
  let pairs ← zipEqual cfg reads blockArgs
  let ctx ← bindGtids iterSpace (ctx.insertAll (pairs.map fun p => (p.1.result, p.2)))
  let ctx ← lowerStms skipLowering ctx
  let returns ← lowerSubExps ctx result
  return (returns, ctx)

def lowerSegMap (lvl : SegLevel) (space : SegSpace) (stms : List Stm) (result : List SubExp)
    (ret : List Ty) (lowerStms : List VName → Ctx → Lower Ctx) (ctx : Ctx) :
    Lower (List Value) := do
  requireThreadLevel lvl
  let iterSpace ← lowerSegSpace space ctx
  let reads ← findSegOpAffineReads iterSpace stms
  let inputs ← lookups ctx (reads.map AffineRead.array)
  let returnTypes ← segOpTypes space.dims ret
  let dynamicSizes ← spaceSizes iterSpace
  let outputs ← tensorEmpties returnTypes dynamicSizes
  let rank := iterSpace.length
  let maps := reads.map AffineRead.indexMap ++ List.replicate outputs.length (.identity rank)
  let (body, _) ← Lower.inBlock ((inputs ++ outputs).map fun v => v.ty.elemOrSelf) fun args => do
    let (results, _) ← lowerSegOpKernelBody cfg args reads iterSpace lowerStms result ctx
    assertThat cfg (results.length == outputs.length)
    return (results, ())
  Emit.create (.generic inputs.length maps (List.replicate rank .parallel)) (inputs ++ outputs)
    returnTypes [body]

def filledOutput (dynamicSizes : List Value) (p : MlirTy × Value) : Emit Value := do
  let empty ← tensorEmpty p.1 dynamicSizes
  Emit.create1 .fill [p.2, empty] p.1

def filledOutputs (dynamicSizes : List Value) (ps : List (MlirTy × Value)) : Emit (List Value) :=
  ps.mapM (filledOutput dynamicSizes)

def lowerSegRed (lvl : SegLevel) (space : SegSpace) (stms : List Stm) (result : List SubExp)
    (params : List Param) (lambdaRet : List Ty) (neutral shape : List SubExp)
    (lowerStms : List VName → Ctx → Lower Ctx) (lowerLambda : Ctx → Lower (List Value × Ctx))
    (ctx : Ctx) : Lower (List Value) := do
  requireThreadLevel lvl
  if shape ≠ [] then Lower.undefined
  else
    let neutral ← lowerSubExps ctx neutral
    let iterSpace ← lowerSegSpace space ctx
    let rank := iterSpace.length
    if rank = 0 then Lower.undefined
    else
      let reads ← findSegOpAffineReads iterSpace stms
      let inputs ← lookups ctx (reads.map AffineRead.array)
      let returnTypes ← segOpTypes (space.dims.take (rank - 1)) lambdaRet
      let dynamicSizes ← spaceSizes (iterSpace.filter fun d => d.index ≠ rank - 1)
      let pairs ← zipEqual cfg returnTypes neutral
      let outputs ← filledOutputs dynamicSizes pairs
      let iterTypes := List.replicate (rank - 1) IteratorType.parallel ++ [.reduction]
      let maps := reads.map AffineRead.indexMap ++
        List.replicate outputs.length ⟨rank, List.range (rank - 1)⟩
      let argTys := (inputs ++ outputs).map fun v => v.ty.elemOrSelf
      let (body, _) ← Lower.inBlock argTys fun args => do
        let (returns, kernelCtx) ←
          lowerSegOpKernelBody cfg args reads iterSpace lowerStms result ctx
        let lambdaCtx ← bindOperands cfg kernelCtx params (args.drop inputs.length) returns
        let (results, _) ← lowerLambda lambdaCtx
        return (results, ())
      Emit.create (.generic inputs.length maps iterTypes) (inputs ++ outputs) returnTypes [body]

def lowerSegHist (lvl : SegLevel) (space : SegSpace) (stms : List Stm) (result : List SubExp)
    (ret : List Ty) (ops : List (List VName × List Param))
    (lowerStms : List VName → Ctx → Lower Ctx) (lowerLambda : Ctx → Lower (List Value × Ctx))
    (ctx : Ctx) : Lower (List Value) := do
  requireThreadLevel lvl
  let inputs ← lowerSegMap cfg lvl space stms result ret lowerStms ctx
  match inputs, ops with
  | [indices, values], [(destNames, params)] => do
    let dests ← lookups ctx destNames
    match dests with
    | [dest] => do
      let (indexShape, _) ← getRankedType indices.ty
      if indexShape.length ≠ 1 then Lower.undefined
      else
        let opInputTypes ← (params.mapM fun p => lowerTy p.ty : Except Err (List MlirTy))
        let (body, _) ← Lower.inBlock opInputTypes fun blk => do
          let pairs ← zipEqual cfg params blk
          let local' := ctx.insertAll (pairs.map fun p => (p.1.name, p.2))
          let (returns, _) ← lowerLambda local'
          return (returns, ())
        let op ← Emit.create (.scatter [0] false) [values, indices, dest] [dest.ty] [body]
        let res ← indexed op 0
        return [res]
    | _ => Lower.undefined
  | _, _ => Lower.undefined

/-- A bound or an index at the type of the other, cast only where they differ. -/
def castUnlessEqual (v : Value) (ty : MlirTy) : Emit Value :=
  if v.ty = ty then pure v else indexCast v ty

/-- Bind the gtids of the outer dimensions to the indices of the `scf.forall`. -/
def bindIndices : List (Dim × Value) → Ctx → Emit Ctx
  | [], ctx => return ctx
  | (d, iv) :: rest, ctx => do
    let gtid ← castUnlessEqual iv d.value.ty
    bindIndices rest (ctx.insert d.id gtid)

def upperBounds (dims : List Dim) : Emit (List Value) :=
  dims.mapM fun d => castUnlessEqual d.value .index

/-- `flow.tensor.tie_shape` of every value, where there is a dynamic size to tie. -/
def tieShapes (sizes vs : List Value) : Emit (List Value) :=
  if sizes = [] then pure vs else vs.mapM fun v => Emit.create1 .tieShape (v :: sizes) v.ty

def rowType : MlirTy → MlirTy
  | .tensor shape elem => .tensor (shape.getLast?.toList) elem
  | ty => ty

/-- The values at these positions of a range, whose bounds nothing checks. -/
def firstValues (vs : List Value) (n : Nat) : Except Err (List Value) :=
  if vs.length < n then .error .ub else .ok (vs.take n)

def insertElements (scanIndex : Value) (elements rows : List Value) : Emit (List Value) :=
  (elements.zip rows).mapM fun p => Emit.create1 .tensorInsert [p.1, p.2, scanIndex] p.2.ty

structure ScanParts where
  scanDim : Dim
  params : List Param
  postParams : List Param
  result : List SubExp
  scanValueCount : Nat
  outputCount : Nat
  rowDynamicSizes : List Value

/-- The body of the sequential loop of a scan: the kernel, the operator on the carried
accumulators, the post-operator, and one element of every row. -/
def lowerScanStep (s : ScanParts) (lowerStms : List VName → Ctx → Lower Ctx)
    (lowerOp lowerPost : Ctx → Lower (List Value × Ctx)) (ctx : Ctx) (args : List Value) :
    Lower (List Value) := do
  let scanIndex ← indexed args 0
  let iterArgs := args.drop 1
  let accumulators := iterArgs.take s.scanValueCount
  let outputRows ← tieShapes s.rowDynamicSizes (iterArgs.drop s.scanValueCount)
  let gtid ← castUnlessEqual scanIndex s.scanDim.value.ty
  let kernelCtx ← lowerStms [] (ctx.insert s.scanDim.id gtid)
  let kernelResults ← lowerSubExps kernelCtx s.result
  let lambdaCtx ← bindOperands cfg kernelCtx s.params accumulators kernelResults
  let (nextAccumulators, _) ← lowerOp lambdaCtx
  let bound ← firstValues nextAccumulators s.scanValueCount
  if s.postParams.length < s.scanValueCount then Lower.ub
  else
    let (outputElements, _) ← lowerPost (bindParams kernelCtx s.postParams bound)
    let elements ← firstValues outputElements s.outputCount
    let nextRows ← insertElements scanIndex elements outputRows
    return nextAccumulators ++ nextRows

/-- Insert every completed row into its output, at the indices of the iteration. -/
def insertRows (ivs rows outputs : List Value) (rowSize : Int ⊕ Value) : Emit Block :=
  Emit.inBlock [] fun _ => do
    let ones := ivs.map fun _ => some (1 : Int)
    let _ ← (rows.zip outputs).mapM fun p =>
      Emit.create
        (.parallelInsertSlice (ivs.map (fun _ => none) ++ [some 0])
          (ones ++ [staticPart rowSize]) (ones ++ [some 1]))
        (p.1 :: p.2 :: (ivs ++ (dynamicPart rowSize).toList)) [] []
    return []

def lowerSegScan (lvl : SegLevel) (space : SegSpace) (result : List SubExp)
    (ret : List Ty) (params : List Param) (neutral shape : List SubExp) (postParams : List Param)
    (lowerStms : List VName → Ctx → Lower Ctx)
    (lowerOp lowerPost : Ctx → Lower (List Value × Ctx)) (ctx : Ctx) : Lower (List Value) := do
  requireThreadLevel lvl
  if shape ≠ [] then Lower.undefined
  else
    let iterSpace ← lowerSegSpace space ctx
    match iterSpace.getLast? with
    | none => Lower.undefined
    | some scanDim => do
      let beforeLastDim := iterSpace.dropLast
      let neutrals ← lowerSubExps ctx neutral
      let returnTypes ← segOpTypes space.dims ret
      let dynamicSizes ← spaceSizes iterSpace
      let initialOutputs ← tensorEmpties returnTypes dynamicSizes
      let zero ← constantIndex 0
      let one ← constantIndex 1
      let scanUpperBound ← castUnlessEqual scanDim.value .index
      let mapUpperBounds ← upperBounds beforeLastDim
      let rowTypes := returnTypes.map rowType
      let rowDynamicSizes := if scanDim.isDynamic then [scanUpperBound] else []
      let mapRank := mapUpperBounds.length
      let parts : ScanParts :=
        { scanDim, params, postParams, result, scanValueCount := neutrals.length,
          outputCount := ret.length, rowDynamicSizes }
      let regionTys := List.replicate mapRank MlirTy.index ++ returnTypes
      let (body, _) ← Lower.inBlock regionTys fun regionArgs => do
        let ivs := regionArgs.take mapRank
        let sharedOutputs := regionArgs.drop mapRank
        let local' ← bindIndices (beforeLastDim.zip ivs) ctx
        let initialRows ← tensorEmpties rowTypes rowDynamicSizes
        let initialLoopValues := neutrals ++ initialRows
        let loopTys := initialLoopValues.map Value.ty
        let (loopBody, _) ← Lower.inBlock (.index :: loopTys) fun args => do
          let carry ← lowerScanStep cfg parts lowerStms lowerOp lowerPost local' args
          return (carry, ())
        let loopResults ← Emit.create .scfFor
          (zero :: scanUpperBound :: one :: initialLoopValues) loopTys [loopBody]
        let firstRow ← indexed rowTypes 0
        let (rowShape, _) ← getRankedType firstRow
        let rowDim ← indexed rowShape 0
        let rowSize := if isDynamic rowDim then Sum.inr scanUpperBound else Sum.inl rowDim
        let inserts ← insertRows ivs (loopResults.drop neutrals.length) sharedOutputs rowSize
        let _ ← Emit.create .inParallel [] [] [inserts]
        return ([], ())
      let results ← Emit.create .scfForall (mapUpperBounds ++ initialOutputs) returnTypes [body]
      tieShapes dynamicSizes results

end FutharkMlir
