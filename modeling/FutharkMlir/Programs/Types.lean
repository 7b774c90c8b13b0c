import FutharkMlir.Programs.Meaning

/-! The types of whole programs: what every expression is lowered to, where it is known. A
name has just the MLIR type of what its pattern declares. -/
namespace FutharkMlir

def HasExact (v : Value) (ty : Ty) : Prop := lowerTy ty = .ok v.ty

theorem HasExact.hasTy {v : Value} {ty : Ty} (h : HasExact v ty) : HasTy v ty := by
  cases ty with
  | prim t => exact h
  | array elem shape =>
    simp only [HasExact, lowerTy, Except.bind_eq_ok, Except.pure_eq_ok] at h
    obtain ⟨s, hs, e, he, ty⟩ := h
    exact ⟨s, e, ty.symm, he, (Except.mapM_eq_ok.mp hs).length_eq.symm⟩
  | acc => cases h
  | mem => cases h

instance (Γ : Types) (names : List VName) : Decidable (FreshNames Γ names) :=
  inferInstanceAs (Decidable (_ ∧ _))

def lowerTys (tys : List Ty) : Option (List MlirTy) := (tys.mapM lowerTy).toOption

def loweredType (Γ : Types) : SubExp → Option MlirTy
  | .const c => c.type.bind fun t => (lowerTy (.prim t)).toOption
  | .var x => (Γ x).bind fun ty => (lowerTy ty).toOption

/-- A value of the first type is cast to the second where its extents fit. -/
def castable : MlirTy → MlirTy → Bool
  | .tensor _ e, .tensor _ e' => e == e'
  | ty, ty' => ty == ty'

def allCastable : List MlirTy → List MlirTy → Bool
  | [], [] => true
  | ty :: tys, ty' :: tys' => castable ty ty' && allCastable tys tys'
  | _, _ => false

section Operations

variable (Γ : Types)

def checkSlice (arr : VName) (dims : List DimIndex) : Option MlirTy :=
  match Γ arr with
  | some (.array elem _) => do
    let shape ← ((sliceLengths dims).mapM toShapeDim).toOption
    let e ← (lowerPrimType elem).toOption
    return .tensor shape e
  | _ => none

def checkIota (n x s : SubExp) (t : IntType) : Option MlirTy := do
  let d ← (toShapeDim n).toOption
  if typeSubExp Γ x = some (.int t) ∧ typeSubExp Γ s = some (.int t) then
    return .tensor [d] (.int t.getWidth)
  else none

def checkReplicate (dims : List SubExp) (val : SubExp) : Option MlirTy := do
  let ty ← loweredType Γ val
  if dims = [] then return ty
  else
    let shape ← (toShapeType dims).toOption
    match ty with
    | .tensor inner e => return .tensor (shape ++ inner) e
    | .scalar e => return .tensor shape e

def checkLiteral (values : List SubExp) : Ty → Option MlirTy
  | .array t shape => do
    let ts ← values.mapM (typeSubExp Γ)
    if (∀ t' ∈ ts, t' = t) ∧ shape = [.const (.createInt values.length 64)] ∧
        values.length < 2 ^ 63 then
      (lowerTy (.array t shape)).toOption
    else none
  | _ => none

def checkOp (op : BasicOp) : Option MlirTy :=
  match op with
  | .subExp se => loweredType Γ se
  | .index arr dims =>
    if dims.any DimIndex.isSlice then checkSlice Γ arr dims
    else (typeBasicOp Γ op).bind fun t => (lowerTy (.prim t)).toOption
  | .iota n x s t => checkIota Γ n x s t
  | .replicate dims val => checkReplicate Γ dims val
  | .arrayLit values ty => checkLiteral Γ values ty
  | op => (typeBasicOp Γ op).bind fun t => (lowerTy (.prim t)).toOption

end Operations

section Kernels

variable (prog : Prog) (Γ : Types)

/-- The loads of the kernel at gtids read arrays from outside of it. -/
def loadsOuter (space : SegSpace) (stms : List Stm) : Bool :=
  (space.affineReads stms).all fun read => match Γ read.array with
    | some (.array _ _) => true
    | _ => false

/-- The types of the results of a kernel whose names are new. -/
def checkKernel (space : SegSpace) (stms : List Stm) (result : List SubExp) :
    Option (List PrimType) := do
  let ts ← typeKernel prog Γ space (.mk stms result)
  if FreshNames Γ (space.dims.map Prod.fst ++ stmsBinders stms) then return ts else none

def isOperator (ts : List PrimType) (params : List Param) (body : Body) (neutral : List SubExp) :
    Bool :=
  decide (params.map Param.ty = (ts ++ ts).map .prim ∧ typeLambda prog Γ params body = some ts ∧
    neutral.mapM (typeSubExp Γ) = some ts ∧ FreshNames Γ (params.map Param.name ++ body.binders))

def checkSegOp (op : SegOp) : Option (List MlirTy) :=
  match op with
  | .segMap _ space ret (.mk stms result) => do
    let ts ← checkKernel prog Γ space stms result
    if ret = ts.map .prim ∧ ts ≠ [] ∧ loadsOuter Γ space stms then
      (segOpTypes space.dims ret).toOption
    else none
  | .segRed _ space _ (.mk stms result) [.mk (.mk params ret body) neutral _] => do
    let ts ← checkKernel prog Γ space stms result
    if ret = ts.map .prim ∧ ts ≠ [] ∧ loadsOuter Γ space stms ∧
        isOperator prog Γ ts params body neutral then
      (segOpTypes (space.dims.take (space.dims.length - 1)) ret).toOption
    else none
  | .segScan _ space ret (.mk stms result) [.mk (.mk params _ body) neutral _]
      (.mk postParams _ postBody) => do
    let ts ← checkKernel prog Γ space stms result
    let rets ← typeLambda prog Γ postParams postBody
    if ret = rets.map .prim ∧ space.dims ≠ [] ∧ postParams.map Param.ty = ts.map .prim ∧
        FreshNames Γ (postParams.map Param.name ++ postBody.binders) ∧
        isOperator prog Γ ts params body neutral then
      (segOpTypes space.dims ret).toOption
    else none
  | _ => none

end Kernels

section Programs

variable (prog : Prog)

mutual

def checkStms : List Stm → Types → Option Types
  | [], Γ => some Γ
  | stm :: rest, Γ => do
    let Γ ← checkStm stm Γ
    checkStms rest Γ

def checkStm : Stm → Types → Option Types
  | .mk pat exp, Γ => do
    let tys ← checkExp exp Γ
    if lowerTys (pat.map PatElem.ty) = some tys ∧ FreshNames Γ (pat.map PatElem.name) then
      Γ.bind (pat.map PatElem.name) (pat.map PatElem.ty)
    else none

def checkBody : Body → Types → Option (List MlirTy)
  | .mk stms result, Γ => do
    let Γ ← checkStms stms Γ
    result.mapM (loweredType Γ)

/-- Both branches have the same types. What a loop carries and what is passed to a function or
returned by it is cast. -/
def checkExp : Exp → Types → Option (List MlirTy)
  | .basicOp op, Γ => do
    let ty ← checkOp Γ op
    return [ty]
  | .subExp se, Γ => do
    let ty ← loweredType Γ se
    return [ty]
  | .apply fname args retTypes, Γ => do
    let f ← findFunction prog fname
    let argTys ← args.mapM (loweredType Γ)
    let params ← lowerTys (f.params.map Param.ty)
    let rets ← lowerTys f.retType
    let tys ← lowerTys retTypes
    if f.lowered ∧ allCastable argTys params ∧ allCastable rets tys then return tys else none
  | .ite cond thenBody elseBody _, Γ => do
    let thenTys ← checkBody thenBody Γ
    let elseTys ← checkBody elseBody Γ
    if typeSubExp Γ cond = some .bool ∧ thenTys = elseTys then return thenTys else none
  | .loop merge (.forLoop i t bound) body, Γ => do
    let inits ← (merge.map Prod.snd).mapM (loweredType Γ)
    let tys ← lowerTys (merge.map fun m => m.1.ty)
    let inner ← (Γ.insert i (.prim (.int t))).bind (mergeNames merge) (merge.map fun m => m.1.ty)
    let results ← checkBody body inner
    if typeSubExp Γ bound = some (.int t) ∧ FreshNames Γ (i :: mergeNames merge) ∧
        allCastable inits tys ∧ allCastable results tys then
      return tys
    else none
  | .loop _ (.whileLoop _) _, _ => none
  | .hostOp (.segOp op), Γ => checkSegOp prog Γ op
  | .hostOp _, _ => none

end

/-- The function returns just what it declares. -/
def checkFunction (f : FunDef) : Bool :=
  ((do
    let Γ ← checkStms prog prog.consts Binding.empty
    let Γ' ← Γ.bind (paramNames f.params) (f.params.map Param.ty)
    let tys ← checkBody prog f.body Γ'
    if FreshNames Γ (paramNames f.params) ∧ lowerTys f.retType = some tys then some ()
    else none) : Option Unit).isSome

/-- The functions that are lowered have types, and the names of functions are distinct. -/
structure Checked : Prop where
  functions : ∀ f ∈ prog.funs, f.lowered = true → checkFunction prog f = true
  names : (prog.funs.map FunDef.name).Nodup

end Programs

end FutharkMlir
