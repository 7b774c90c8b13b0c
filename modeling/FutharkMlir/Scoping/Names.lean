import FutharkMlir.Syntax.Core
import Mathlib.Data.List.Nodup

/-! The names an expression uses from outside and the names it binds. Names in types are
left out: the lowering reads their constants only. -/
namespace FutharkMlir

def SubExp.names : SubExp → List VName
  | .const _ => []
  | .var x => [x]

def subExpNames (ses : List SubExp) : List VName := ses.flatMap SubExp.names

def DimIndex.names : DimIndex → List VName
  | .fix i => i.names
  | .slice start length stride => start.names ++ length.names ++ stride.names

def BasicOp.names : BasicOp → List VName
  | .subExp se => se.names
  | .arrayLit values _ => subExpNames values
  | .binOp _ op0 op1 => op0.names ++ op1.names
  | .cmpOp _ op0 op1 => op0.names ++ op1.names
  | .convOp _ op0 => op0.names
  | .index arr dims => arr :: dims.flatMap DimIndex.names
  | .concat _ arrs total => arrs ++ total.names
  | .iota n x s _ => n.names ++ x.names ++ s.names
  | .replicate shape val => subExpNames shape ++ val.names
  | .scratch _ dims => subExpNames dims
  | .reshape op0 _ _ reshapedDim remainder =>
    op0.names ++ subExpNames reshapedDim ++ subExpNames remainder
  | .rearrange arr _ => [arr]
  | .opaqueOp | .arrayVal | .unOp | .assert | .update | .flatIndex | .flatUpdate | .manifest => []

def SegSpace.names (space : SegSpace) : List VName := subExpNames (space.dims.map Prod.snd)

def SegSpace.binders (space : SegSpace) : List VName := space.flatId :: space.dims.map Prod.fst

def LoopForm.names : LoopForm → List VName
  | .forLoop _ _ bound => bound.names
  | .whileLoop _ => []

def LoopForm.binders : LoopForm → List VName
  | .forLoop i _ _ => [i]
  | .whileLoop _ => []

def paramNames (params : List Param) : List VName := params.map Param.name

def mergeNames (merge : List (Param × SubExp)) : List VName := merge.map fun m => m.1.name

def without (names bound : List VName) : List VName := names.filter fun x => x ∉ bound

theorem mem_without {x : VName} {names bound : List VName} :
    x ∈ without names bound ↔ x ∈ names ∧ x ∉ bound := by
  simp [without]

def Stm.patNames (stm : Stm) : List VName := stm.pat.map PatElem.name

mutual

/-- The free names of statements followed by a use of the names `after`. -/
def stmsFree (after : List VName) : List Stm → List VName
  | [] => after
  | .mk pat exp :: rest => exp.free ++ without (stmsFree after rest) (pat.map PatElem.name)

def Body.free : Body → List VName
  | .mk stms result => stmsFree (subExpNames result) stms

def Lambda.free : Lambda → List VName
  | .mk params _ body => without body.free (paramNames params)

def segBinOpsFree : List SegBinOp → List VName
  | [] => []
  | .mk lambda neutral shape :: rest =>
    lambda.free ++ subExpNames neutral ++ subExpNames shape ++ segBinOpsFree rest

def histOpsFree : List HistOp → List VName
  | [] => []
  | .mk dest lambda :: rest => dest ++ lambda.free ++ histOpsFree rest

def SegOp.free : SegOp → List VName
  | .segMap _ space _ body => space.names ++ without body.free space.binders
  | .segRed _ space _ body ops =>
    space.names ++ without body.free space.binders ++ segBinOpsFree ops
  | .segScan _ space _ body ops postOp =>
    space.names ++ without body.free space.binders ++ segBinOpsFree ops ++ postOp.free
  | .segHist _ space _ body ops =>
    space.names ++ without body.free space.binders ++ histOpsFree ops

def HostOp.free : HostOp → List VName
  | .segOp op => op.free
  | .sizeOp => []
  | .gpuBody => []

def Exp.free : Exp → List VName
  | .basicOp op => op.names
  | .subExp se => se.names
  | .apply _ args _ => subExpNames args
  | .ite cond thenBody elseBody _ => cond.names ++ thenBody.free ++ elseBody.free
  | .loop merge form body =>
    subExpNames (merge.map Prod.snd) ++ form.names ++
      without body.free (form.binders ++ mergeNames merge)
  | .hostOp op => op.free

end

mutual

def stmsBinders : List Stm → List VName
  | [] => []
  | .mk pat exp :: rest => pat.map PatElem.name ++ exp.binders ++ stmsBinders rest

def Body.binders : Body → List VName
  | .mk stms _ => stmsBinders stms

def Lambda.binders : Lambda → List VName
  | .mk params _ body => paramNames params ++ body.binders

def segBinOpsBinders : List SegBinOp → List VName
  | [] => []
  | .mk lambda _ _ :: rest => lambda.binders ++ segBinOpsBinders rest

def histOpsBinders : List HistOp → List VName
  | [] => []
  | .mk _ lambda :: rest => lambda.binders ++ histOpsBinders rest

def SegOp.binders : SegOp → List VName
  | .segMap _ space _ body => space.binders ++ body.binders
  | .segRed _ space _ body ops => space.binders ++ body.binders ++ segBinOpsBinders ops
  | .segScan _ space _ body ops postOp =>
    space.binders ++ body.binders ++ segBinOpsBinders ops ++ postOp.binders
  | .segHist _ space _ body ops => space.binders ++ body.binders ++ histOpsBinders ops

def HostOp.binders : HostOp → List VName
  | .segOp op => op.binders
  | .sizeOp => []
  | .gpuBody => []

def Exp.binders : Exp → List VName
  | .basicOp _ => []
  | .subExp _ => []
  | .apply _ _ _ => []
  | .ite _ thenBody elseBody _ => thenBody.binders ++ elseBody.binders
  | .loop merge form body => form.binders ++ mergeNames merge ++ body.binders
  | .hostOp op => op.binders

end

end FutharkMlir
