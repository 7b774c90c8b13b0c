import FutharkMlir.Compiler.Function

/-! Programs with their variables renamed. The names of functions stay what they are. -/
namespace FutharkMlir

section Rename

variable (ρ : VName → VName)

def SubExp.rename : SubExp → SubExp
  | .const c => .const c
  | .var x => .var (ρ x)

def DimIndex.rename : DimIndex → DimIndex
  | .fix i => .fix (i.rename ρ)
  | .slice start length stride => .slice (start.rename ρ) (length.rename ρ) (stride.rename ρ)

def Ty.rename : Ty → Ty
  | .prim t => .prim t
  | .array elem shape => .array elem (shape.map (SubExp.rename ρ))
  | .acc => .acc
  | .mem => .mem

def Param.rename (p : Param) : Param := ⟨ρ p.name, p.ty.rename ρ⟩

def PatElem.rename (p : PatElem) : PatElem := ⟨ρ p.name, p.ty.rename ρ⟩

def BasicOp.rename : BasicOp → BasicOp
  | .subExp se => .subExp (se.rename ρ)
  | .arrayLit values t => .arrayLit (values.map (SubExp.rename ρ)) (t.rename ρ)
  | .binOp op op0 op1 => .binOp op (op0.rename ρ) (op1.rename ρ)
  | .cmpOp op op0 op1 => .cmpOp op (op0.rename ρ) (op1.rename ρ)
  | .convOp op op0 => .convOp op (op0.rename ρ)
  | .index arr dims => .index (ρ arr) (dims.map (DimIndex.rename ρ))
  | .concat dim arrs total => .concat dim (arrs.map ρ) (total.rename ρ)
  | .iota n x s t => .iota (n.rename ρ) (x.rename ρ) (s.rename ρ) t
  | .replicate shape val => .replicate (shape.map (SubExp.rename ρ)) (val.rename ρ)
  | .scratch type dims => .scratch type (dims.map (SubExp.rename ρ))
  | .reshape op0 dimBegin dimEnd reshapedDim remainder =>
    .reshape (op0.rename ρ) dimBegin dimEnd (reshapedDim.map (SubExp.rename ρ))
      (remainder.map (SubExp.rename ρ))
  | .rearrange arr perm => .rearrange (ρ arr) perm
  | .opaqueOp => .opaqueOp
  | .arrayVal => .arrayVal
  | .unOp => .unOp
  | .assert => .assert
  | .update => .update
  | .flatIndex => .flatIndex
  | .flatUpdate => .flatUpdate
  | .manifest => .manifest

def renameDim (dim : VName × SubExp) : VName × SubExp := (ρ dim.1, dim.2.rename ρ)

def SegSpace.rename (space : SegSpace) : SegSpace :=
  ⟨ρ space.flatId, space.dims.map (renameDim ρ)⟩

def LoopForm.rename : LoopForm → LoopForm
  | .forLoop i t bound => .forLoop (ρ i) t (bound.rename ρ)
  | .whileLoop cond => .whileLoop (ρ cond)

def renameMerge (m : Param × SubExp) : Param × SubExp := (m.1.rename ρ, m.2.rename ρ)

mutual

def Exp.rename : Exp → Exp
  | .basicOp op => .basicOp (op.rename ρ)
  | .apply fname args retTypes =>
    .apply fname (args.map (SubExp.rename ρ)) (retTypes.map (Ty.rename ρ))
  | .hostOp op => .hostOp (HostOp.rename op)
  | .subExp se => .subExp (se.rename ρ)
  | .ite cond thenBody elseBody retType =>
    .ite (cond.rename ρ) (Body.rename thenBody) (Body.rename elseBody)
      (retType.map (Ty.rename ρ))
  | .loop merge form body =>
    .loop (merge.map (renameMerge ρ)) (form.rename ρ) (Body.rename body)

def Body.rename : Body → Body
  | .mk stms result => .mk (renameStms stms) (result.map (SubExp.rename ρ))

def renameStms : List Stm → List Stm
  | [] => []
  | stm :: rest => Stm.rename stm :: renameStms rest

def Stm.rename : Stm → Stm
  | .mk pat exp => .mk (pat.map (PatElem.rename ρ)) (Exp.rename exp)

def HostOp.rename : HostOp → HostOp
  | .segOp op => .segOp (SegOp.rename op)
  | .sizeOp => .sizeOp
  | .gpuBody => .gpuBody

def Lambda.rename : Lambda → Lambda
  | .mk params ret body =>
    .mk (params.map (Param.rename ρ)) (ret.map (Ty.rename ρ)) (Body.rename body)

def SegBinOp.rename : SegBinOp → SegBinOp
  | .mk lambda neutral shape =>
    .mk (Lambda.rename lambda) (neutral.map (SubExp.rename ρ)) (shape.map (SubExp.rename ρ))

def renameSegBinOps : List SegBinOp → List SegBinOp
  | [] => []
  | op :: rest => SegBinOp.rename op :: renameSegBinOps rest

def HistOp.rename : HistOp → HistOp
  | .mk dest lambda => .mk (dest.map ρ) (Lambda.rename lambda)

def renameHistOps : List HistOp → List HistOp
  | [] => []
  | op :: rest => HistOp.rename op :: renameHistOps rest

def SegOp.rename : SegOp → SegOp
  | .segMap lvl space ret body =>
    .segMap lvl (space.rename ρ) (ret.map (Ty.rename ρ)) (Body.rename body)
  | .segRed lvl space ret body ops =>
    .segRed lvl (space.rename ρ) (ret.map (Ty.rename ρ)) (Body.rename body) (renameSegBinOps ops)
  | .segScan lvl space ret body ops postOp =>
    .segScan lvl (space.rename ρ) (ret.map (Ty.rename ρ)) (Body.rename body)
      (renameSegBinOps ops) (Lambda.rename postOp)
  | .segHist lvl space ret body ops =>
    .segHist lvl (space.rename ρ) (ret.map (Ty.rename ρ)) (Body.rename body) (renameHistOps ops)

end

def FunDef.rename (f : FunDef) : FunDef :=
  { f with
    retType := f.retType.map (Ty.rename ρ)
    params := f.params.map (Param.rename ρ)
    body := f.body.rename ρ }

def Prog.rename (prog : Prog) : Prog where
  consts := renameStms ρ prog.consts
  funs := prog.funs.map (FunDef.rename ρ)

end Rename

@[simp] theorem SubExp.rename_id : SubExp.rename id = id := by
  funext se
  cases se <;> rfl

@[simp] theorem DimIndex.rename_id : DimIndex.rename id = id := by
  funext d
  cases d <;> simp [DimIndex.rename]

@[simp] theorem Ty.rename_id : Ty.rename id = id := by
  funext ty
  cases ty <;> simp [Ty.rename]

@[simp] theorem Param.rename_id : Param.rename id = id := by
  funext p
  simp [Param.rename]

@[simp] theorem PatElem.rename_id : PatElem.rename id = id := by
  funext p
  simp [PatElem.rename]

@[simp] theorem BasicOp.rename_id (op : BasicOp) : op.rename id = op := by
  cases op <;> simp [BasicOp.rename]

@[simp] theorem renameDim_id : renameDim id = id := by
  funext dim
  simp [renameDim]

@[simp] theorem SegSpace.rename_id (space : SegSpace) : space.rename id = space := by
  simp [SegSpace.rename]

@[simp] theorem LoopForm.rename_id (form : LoopForm) : form.rename id = form := by
  cases form <;> simp [LoopForm.rename]

@[simp] theorem renameMerge_id : renameMerge id = id := by
  funext m
  simp [renameMerge]

mutual

theorem Exp.rename_id : ∀ exp : Exp, exp.rename id = exp
  | .basicOp op => by simp [Exp.rename]
  | .apply fname args retTypes => by simp [Exp.rename]
  | .hostOp op => by simp [Exp.rename, HostOp.rename_id op]
  | .subExp se => by simp [Exp.rename]
  | .ite cond thenBody elseBody retType => by
    simp [Exp.rename, Body.rename_id thenBody, Body.rename_id elseBody]
  | .loop merge form body => by simp [Exp.rename, Body.rename_id body]

theorem Body.rename_id : ∀ body : Body, body.rename id = body
  | .mk stms result => by simp [Body.rename, renameStms_id stms]

theorem renameStms_id : ∀ stms : List Stm, renameStms id stms = stms
  | [] => rfl
  | stm :: rest => by rw [renameStms, Stm.rename_id stm, renameStms_id rest]

theorem Stm.rename_id : ∀ stm : Stm, stm.rename id = stm
  | .mk pat exp => by simp [Stm.rename, Exp.rename_id exp]

theorem HostOp.rename_id : ∀ op : HostOp, op.rename id = op
  | .segOp op => by rw [HostOp.rename, SegOp.rename_id op]
  | .sizeOp => rfl
  | .gpuBody => rfl

theorem Lambda.rename_id : ∀ lambda : Lambda, lambda.rename id = lambda
  | .mk params ret body => by simp [Lambda.rename, Body.rename_id body]

theorem SegBinOp.rename_id : ∀ op : SegBinOp, op.rename id = op
  | .mk lambda neutral shape => by simp [SegBinOp.rename, Lambda.rename_id lambda]

theorem renameSegBinOps_id : ∀ ops : List SegBinOp, renameSegBinOps id ops = ops
  | [] => rfl
  | op :: rest => by rw [renameSegBinOps, SegBinOp.rename_id op, renameSegBinOps_id rest]

theorem HistOp.rename_id : ∀ op : HistOp, op.rename id = op
  | .mk dest lambda => by simp [HistOp.rename, Lambda.rename_id lambda]

theorem renameHistOps_id : ∀ ops : List HistOp, renameHistOps id ops = ops
  | [] => rfl
  | op :: rest => by rw [renameHistOps, HistOp.rename_id op, renameHistOps_id rest]

theorem SegOp.rename_id : ∀ op : SegOp, op.rename id = op
  | .segMap lvl space ret body => by simp [SegOp.rename, Body.rename_id body]
  | .segRed lvl space ret body ops => by
    simp [SegOp.rename, Body.rename_id body, renameSegBinOps_id ops]
  | .segScan lvl space ret body ops postOp => by
    simp [SegOp.rename, Body.rename_id body, renameSegBinOps_id ops, Lambda.rename_id postOp]
  | .segHist lvl space ret body ops => by
    simp [SegOp.rename, Body.rename_id body, renameHistOps_id ops]

end

theorem FunDef.rename_id (f : FunDef) : f.rename id = f := by
  simp [FunDef.rename, f.body.rename_id]

theorem Prog.rename_id (prog : Prog) : prog.rename id = prog := by
  have same : FunDef.rename id = id := funext FunDef.rename_id
  simp [Prog.rename, renameStms_id, same]

section Types

variable {ρ : VName → VName}

@[simp] theorem toShapeDim_rename (d : SubExp) : toShapeDim (d.rename ρ) = toShapeDim d := by
  cases d <;> rfl

@[simp] theorem toShapeType_rename (dims : List SubExp) :
    toShapeType (dims.map (SubExp.rename ρ)) = toShapeType dims := by
  simp only [toShapeType, List.mapM_map, Function.comp_def, toShapeDim_rename]

@[simp] theorem lowerTy_rename (ty : Ty) : lowerTy (ty.rename ρ) = lowerTy ty := by
  cases ty <;> simp [Ty.rename, lowerTy]

@[simp] theorem lowerTys_rename (tys : List Ty) :
    (tys.map (Ty.rename ρ)).mapM lowerTy = tys.mapM lowerTy := by
  simp only [List.mapM_map, Function.comp_def, lowerTy_rename]

@[simp] theorem segOpTypes_rename (dims : List (VName × SubExp)) (ret : List Ty) :
    segOpTypes (dims.map (renameDim ρ)) (ret.map (Ty.rename ρ)) = segOpTypes dims ret := by
  have bases : ∀ t : Ty, lowerSegOpBaseType (t.rename ρ) = lowerSegOpBaseType t := by
    intro t
    cases t <;> rfl
  have shape : toShapeType ((dims.map (renameDim ρ)).map Prod.snd) =
      toShapeType (dims.map Prod.snd) := by
    rw [← toShapeType_rename (ρ := ρ) (dims.map Prod.snd)]
    simp [renameDim, Function.comp_def]
  simp only [segOpTypes, List.mapM_map, Function.comp_def, bases, shape]

theorem funcSig_rename (f : FunDef) : funcSig (f.rename ρ) = funcSig f := by
  have params : (f.params.map (Param.rename ρ)).map Param.ty =
      (f.params.map Param.ty).map (Ty.rename ρ) := by
    simp [Param.rename, Function.comp_def]
  simp only [funcSig, FunDef.rename, params, lowerTys_rename]

end Types

section Sizes

variable {ρ : VName → VName} (injective : Function.Injective ρ)

include injective

theorem lookup_rename (table : List (String × Int)) (x : VName) :
    (table.map fun p => (ρ p.1, p.2)).lookup (ρ x) = table.lookup x := by
  induction table with
  | nil => rfl
  | cons p table ih =>
    have same : (ρ x == ρ p.1) = (x == p.1) := by
      rw [Bool.eq_iff_iff, beq_iff_eq, beq_iff_eq, injective.eq_iff]
    rw [List.map_cons, List.lookup_cons, List.lookup_cons, same, ih]

theorem sizePositions_rename (table : List (String × Int)) (dims : List SubExp) :
    sizePositions (table.map fun p => (ρ p.1, p.2)) (dims.map (SubExp.rename ρ)) =
      sizePositions table dims := by
  simp only [sizePositions, List.mapM_map]
  congr 1
  funext d
  cases d with
  | const c => rfl
  | var x => simp only [Function.comp_apply, SubExp.rename, lookup_rename injective]

theorem sizeAnnotations_rename (params : List Param) (i : Int) (table : List (String × Int)) :
    sizeAnnotations i (table.map fun p => (ρ p.1, p.2)) (params.map (Param.rename ρ)) =
      sizeAnnotations i table params := by
  induction params generalizing i table with
  | nil => rfl
  | cons p params ih =>
    have later := ih (i + 1) ((p.name, i) :: table)
    simp only [List.map_cons] at later
    simp only [List.map_cons, sizeAnnotations, Param.rename, later]
    cases ty : p.ty with
    | array elem dims =>
      have here := sizePositions_rename injective ((p.name, i) :: table) dims
      simp only [List.map_cons] at here
      simp only [Ty.rename, here]
    | prim t => rfl
    | acc => rfl
    | mem => rfl

theorem declareFunction_rename (f : FunDef) : declareFunction (f.rename ρ) = declareFunction f := by
  have sizes : sizeArgs (f.rename ρ) = sizeArgs f := by
    have annotations := sizeAnnotations_rename injective f.params 0 []
    simp only [List.map_nil] at annotations
    simp [sizeArgs, FunDef.rename, annotations, Function.comp_def]
  rw [declareFunction, declareFunction, funcSig_rename, sizes]
  rfl

end Sizes

end FutharkMlir
