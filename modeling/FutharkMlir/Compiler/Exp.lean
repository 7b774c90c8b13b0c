import FutharkMlir.Compiler.BlackBox
import FutharkMlir.Compiler.SegOp

/-! Lowering of bodies, statements and expressions. An application may lower the function
it applies first, by the `lowerFunction` passed in. -/
namespace FutharkMlir

/-- What `LowerFunction` returns: a function to call or a black box. -/
inductive Callee where
  | func (sig : FuncSig)
  | blackBox (b : BlackBox)
  deriving DecidableEq, Repr

def findFunction (prog : Prog) (fname : String) : Option FunDef :=
  prog.funs.find? fun f => f.name = fname

variable (cfg : Config) (prog : Prog) (lowerFunction : FunDef → Lower Callee)

def castAll (pairs : List (Value × MlirTy)) : Emit (List Value) :=
  pairs.mapM fun p => castToType p.1 p.2

/-- The types of the merge parameters and their initial values at these types. -/
def loopInits (merge : List (Param × SubExp)) (ctx : Ctx) : Emit (List (MlirTy × Value)) :=
  merge.mapM fun m => do
    let ty ← lowerTy m.1.ty
    let v ← lowerSubExp ctx m.2
    let init ← castToType v ty
    return (ty, init)

/-- A loop carries a set of parameters from one iteration to the next, which become the
iteration arguments of the `scf.for`. -/
def lowerLoop (merge : List (Param × SubExp)) (form : LoopForm)
    (lowerBody : Ctx → Lower (List Value × Ctx)) (ctx : Ctx) : Lower (List Value) :=
  match form with
  | .whileLoop _ => Lower.undefined
  | .forLoop i t bound => do
    let typed ← loopInits merge ctx
    let mergeTypes := typed.map Prod.fst
    let inits := typed.map Prod.snd
    let lb ← constantIndex 0
    let n ← lowerSubExp ctx bound
    let ub ← indexCast n .index
    let step ← constantIndex 1
    let argTys := inits.map Value.ty
    let (body, _) ← Lower.inBlock (.index :: argTys) fun args => do
      let iv ← indexed args 0
      -- The body sees the counter at its own integer type.
      let counter ← indexCast iv (.int t.getWidth)
      let pairs ← zipEqual cfg merge (args.drop 1)
      let local' := (ctx.insert i counter).insertAll (pairs.map fun p => (p.1.1.name, p.2))
      let (results, _) ← lowerBody local'
      -- The results feed back into the merge parameters, so they need the same types.
      let typedResults ← zipEqual cfg results mergeTypes
      let yield ← castAll typedResults
      return (yield, ())
    Emit.create .scfFor (lb :: ub :: step :: inits) argTys [body]

/-- The arguments of a call, at the types of the callee's parameters. -/
def lowerCallArgs (ctx : Ctx) (pairs : List (SubExp × MlirTy)) : Emit (List Value) :=
  pairs.mapM fun p => do
    let v ← lowerSubExp ctx p.1
    castToType v p.2

/-- A call of the function, or the operations of the black box. -/
def lowerCallee (callee : Callee) (args : List SubExp) (retTys : List MlirTy) (ctx : Ctx) :
    Emit (List Value) :=
  match callee with
  | .func sig => do
    let pairs ← zipEqual cfg args sig.argTypes
    let vs ← lowerCallArgs ctx pairs
    Emit.create (.call sig.name) vs sig.retTypes []
  | .blackBox b => do
    let vs ← lowerSubExps ctx args
    lowerBlackBox cfg b vs retTys

def lowerApply (fname : String) (args : List SubExp) (retTypes : List Ty) (ctx : Ctx) :
    Lower (List Value) :=
  match findFunction prog fname with
  | none => do
    let vs ← lowerSubExps ctx args
    lowerIntrinsic fname vs
  | some f => do
    let retTys ← (retTypes.mapM lowerTy : Except Err (List MlirTy))
    let callee ← lowerFunction f
    let returns ← lowerCallee cfg callee args retTys ctx
    let pairs ← zipEqual cfg returns retTys
    castAll pairs

mutual

def lowerStms : List Stm → Ctx → Lower Ctx
  | [], ctx => return ctx
  | stm :: rest, ctx => do
    let ctx ← lowerStm stm ctx
    lowerStms rest ctx

/-- The statements of a kernel body but those that bind a name in `skipLowering`. -/
def lowerKernelStms : List Stm → List VName → Ctx → Lower Ctx
  | [], _, ctx => return ctx
  | stm :: rest, skipLowering, ctx => do
    if (stm.pat.map PatElem.name).any skipLowering.contains then
      lowerKernelStms rest skipLowering ctx
    else
      let ctx ← lowerStm stm ctx
      lowerKernelStms rest skipLowering ctx

def lowerStm : Stm → Ctx → Lower Ctx
  | .mk pat exp, ctx => do
    let (vs, ctx) ← Lower.recording (.mk pat exp) ctx (lowerExp exp ctx)
    let pairs ← zipEqual cfg pat vs
    return ctx.insertAll (pairs.map fun p => (p.1.name, p.2))

def lowerBody : Body → Ctx → Lower (List Value × Ctx)
  | .mk stms result, ctx => do
    let ctx ← lowerStms stms ctx
    let results ← lowerSubExps ctx result
    return (results, ctx)

def lowerExp : Exp → Ctx → Lower (List Value × Ctx)
  | .basicOp op, ctx => do
    let v ← lowerBasicOp cfg op ctx
    return ([v], ctx)
  | .subExp se, ctx => do
    let v ← lowerSubExp ctx se
    return ([v], ctx)
  | .apply fname args retTypes, ctx => do
    let vs ← lowerApply cfg prog lowerFunction fname args retTypes ctx
    return (vs, ctx)
  | .ite cond thenBody elseBody _, ctx => do
    let c ← lowerSubExp ctx cond
    -- Both branches extend the environment of the enclosing block.
    let (thenBlock, ctx) ← Lower.inBlock [] fun _ => lowerBody thenBody ctx
    let (elseBlock, ctx) ← Lower.inBlock [] fun _ => lowerBody elseBody ctx
    let vs ← Emit.create .scfIf [c] (thenBlock.yield.map Value.ty) [thenBlock, elseBlock]
    return (vs, ctx)
  | .loop merge form body, ctx => do
    let vs ← lowerLoop cfg merge form (lowerBody body) ctx
    return (vs, ctx)
  | .hostOp op, ctx => do
    let vs ← lowerHostOp op ctx
    return (vs, ctx)

def lowerHostOp : HostOp → Ctx → Lower (List Value)
  | .segOp op, ctx => lowerSegOp op ctx
  | .sizeOp, _ => Lower.undefined
  | .gpuBody, _ => Lower.undefined

def lowerSegOp : SegOp → Ctx → Lower (List Value)
  | .segMap lvl space ret (.mk stms result), ctx =>
    lowerSegMap cfg lvl space stms result ret (lowerKernelStms stms) ctx
  | .segRed lvl space _ (.mk stms result) ops, ctx =>
    match ops with
    | [.mk (.mk params lambdaRet body) neutral shape] =>
      lowerSegRed cfg lvl space stms result params lambdaRet neutral shape
        (lowerKernelStms stms) (lowerBody body) ctx
    | _ => Lower.undefined
  | .segScan lvl space ret (.mk stms result) ops (.mk postParams _ postBody), ctx =>
    match ops with
    | [.mk (.mk params _ body) neutral shape] =>
      lowerSegScan cfg lvl space result ret params neutral shape postParams
        (lowerKernelStms stms) (lowerBody body) (lowerBody postBody) ctx
    | _ => Lower.undefined
  | .segHist lvl space ret (.mk stms result) ops, ctx =>
    match ops with
    | [.mk dest (.mk params _ body)] =>
      lowerSegHist cfg lvl space stms result ret [(dest, params)]
        (lowerKernelStms stms) (lowerBody body) ctx
    | _ =>
      lowerSegHist cfg lvl space stms result ret [] (lowerKernelStms stms)
        (fun _ => Lower.undefined) ctx

end

theorem lowerKernelStms_nil (stms : List Stm) (ctx : Ctx) :
    lowerKernelStms cfg prog lowerFunction stms [] ctx =
      lowerStms cfg prog lowerFunction stms ctx := by
  induction stms generalizing ctx with
  | nil => simp [lowerKernelStms, lowerStms]
  | cons stm rest ih => simp [lowerKernelStms, lowerStms, ih]

end FutharkMlir
