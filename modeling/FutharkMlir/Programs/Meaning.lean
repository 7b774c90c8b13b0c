import FutharkMlir.Arrays.ArrayLit
import FutharkMlir.Arrays.Iota
import FutharkMlir.Arrays.Slice
import FutharkMlir.Kernels.Scan

/-! The meaning of whole programs, with arrays: slices, replications, iotas and literals of
scalars, and the maps, reductions and scans over a space beside the sequential part. The strict
meaning is stuck at a kernel whose loads at gtids do not fill its space: the loop that the kernel
becomes has other bounds. -/
namespace FutharkMlir

variable {F : Type}

instance (extents : List Nat) : Decidable (Indexable extents) :=
  decidable_of_iff (extents.length < 2 ^ 63 ∧ ∀ n ∈ extents, n < 2 ^ 63)
    ⟨fun h => ⟨h.1, h.2⟩, fun h => ⟨h.rank, h.below⟩⟩

def FVal.fits : Ty → FVal F → Bool
  | .prim _, .prim _ => true
  | .array _ shape, .array a => match toShapeType shape with
    | .ok s => decide (Fits s a.shape)
    | .error _ => false
  | _, _ => false

def allFit : List Ty → List (FVal F) → Bool
  | [], [] => true
  | ty :: tys, v :: vs => v.fits ty && allFit tys vs
  | _, _ => false

section Operations

variable (fl : FloatOps F) (ρ : Store F)

def evalReplicate (dims : List SubExp) (val : SubExp) : Option (FVal F) := do
  let ns ← evalDims fl ρ dims
  let v ← evalSubExp fl ρ val
  if Indexable v.extents then return v.replicate ns else none

def evalLiteral (values : List SubExp) : Option (FVal F) := do
  match ← values.mapM (evalPrim fl ρ) with
  | [] => none
  | p :: ps => return rowsOf (.prim p) (ps.map .prim) []

def computeOp (op : BasicOp) : Option (FVal F) :=
  match op with
  | .index arr dims =>
    if dims.any DimIndex.isSlice then evalSlice fl ρ arr dims else evalBasicOp fl ρ op
  | .iota n x s t => evalIota fl ρ n x s t
  | .replicate dims val => evalReplicate fl ρ dims val
  | .arrayLit values _ => evalLiteral fl ρ values
  | op => evalBasicOp fl ρ op

end Operations

section Kernels

def entry (vs : Option (List (FVal F))) (k : Nat) : PVal F :=
  match vs.bind (·[k]?) with
  | some (.prim p) => p
  | _ => .bool false

def isRow (n : Nat) : Option (List (FVal F)) → Bool
  | some vs => vs.length == n && vs.all fun v => v.toPrim.isSome
  | none => false

/-- The arrays of the `n` scalars that there are at every point. -/
def tabulate (extents : List Nat) (n : Nat) (K : List Nat → Option (List (FVal F))) :
    Option (List (FVal F)) :=
  if (points extents).all fun p => isRow n (K p) then
    some ((List.range n).map fun k =>
      .array ⟨extents, fun p => if InBounds extents p then entry (K p) k else .bool false⟩)
  else none

/-- What the loads of the kernel at gtids read ends where the space does. -/
def fillsSpace (ρ : Store F) (space : SegSpace) (stms : List Stm) (extents : List Nat) : Bool :=
  (space.affineReads stms).all fun read => match ρ read.array with
    | some (.array a) => a.shape == read.indexMap.project extents
    | _ => false

/-- The last dimension of the space is one of a load at gtids. -/
def coversLast (space : SegSpace) (stms : List Stm) : Bool :=
  (space.affineReads stms).any fun read => read.indexMap.results.contains (space.dims.length - 1)

variable (strict : Bool) (fl : FloatOps F)
  (call : String → List (FVal F) → Option (List (FVal F)))

/-- What a map, a reduction or a scan over a space of scalar results means. -/
def computeSegOp (op : SegOp) (ρ : Store F) : Option (List (FVal F)) :=
  match op with
  | .segMap _ space ret (.mk stms result) => do
    let bounds ← evalSpace fl ρ space
    let extents := bounds.map Prod.snd
    if !strict || fillsSpace ρ space stms extents then
      tabulate extents ret.length (evalKernel fl call space bounds (.mk stms result) ρ)
    else none
  | .segRed _ space _ (.mk stms result) [.mk (.mk params ret body) neutral _] => do
    let bounds ← evalSpace fl ρ space
    let extents := bounds.map Prod.snd
    let neutrals ← neutral.mapM (evalPrim fl ρ)
    if !strict || (fillsSpace ρ space stms extents && coversLast space stms) then
      let n ← extents.getLast?
      tabulate extents.dropLast ret.length
        (evalReduction fl call space bounds (.mk stms result) params body ρ
          (neutrals.map .prim) n)
    else none
  | .segScan _ space ret (.mk stms result) [.mk (.mk params _ body) neutral _]
      (.mk postParams _ postBody) => do
    let bounds ← evalSpace fl ρ space
    let neutrals ← neutral.mapM (evalPrim fl ρ)
    tabulate (bounds.map Prod.snd) ret.length fun p =>
      evalScan fl call space bounds (.mk stms result) params body postParams postBody ρ
        (neutrals.map .prim) p.dropLast (p.getLastD 0)
  | _ => none

end Kernels

section Programs

variable (strict : Bool) (fl : FloatOps F)
  (call : String → List (FVal F) → Option (List (FVal F)))

mutual

def computeStms : List Stm → Store F → Option (Store F)
  | [], ρ => some ρ
  | stm :: rest, ρ => do
    let ρ ← computeStm stm ρ
    computeStms rest ρ

def computeStm : Stm → Store F → Option (Store F)
  | .mk pat exp, ρ => do
    let vs ← computeExp exp ρ
    ρ.bind (pat.map PatElem.name) vs

def computeBody : Body → Store F → Option (List (FVal F))
  | .mk stms result, ρ => do
    let ρ ← computeStms stms ρ
    result.mapM (evalSubExp fl ρ)

/-- What is carried by a loop and what an application returns has the extents that are
declared. -/
def computeExp : Exp → Store F → Option (List (FVal F))
  | .basicOp op, ρ => do
    let v ← computeOp fl ρ op
    return [v]
  | .subExp se, ρ => do
    let v ← evalSubExp fl ρ se
    return [v]
  | .apply fname args retTypes, ρ => do
    let vs ← args.mapM (evalSubExp fl ρ)
    let outs ← call fname vs
    if allFit retTypes outs then return outs else none
  | .ite cond thenBody elseBody _, ρ => do
    match ← evalPrim fl ρ cond with
    | .bool true => computeBody thenBody ρ
    | .bool false => computeBody elseBody ρ
    | _ => none
  | .loop merge (.forLoop i t bound) body, ρ => do
    let inits ← (merge.map Prod.snd).mapM (evalSubExp fl ρ)
    let n ← (evalPrim fl ρ bound).bind (PVal.asInt t)
    let tys := merge.map fun m => m.1.ty
    if allFit tys inits then
      evalFor i t (mergeNames merge) (fun ρ => do
        let outs ← computeBody body ρ
        if allFit tys outs then return outs else none) ρ n.toInt inits
    else none
  | .loop _ (.whileLoop _) _, _ => none
  | .hostOp (.segOp op), ρ => computeSegOp strict fl call op ρ
  | .hostOp _, _ => none

end

/-- A function that is lowered, on arguments with the extents it declares. -/
def computeFunction (prog : Prog) : Nat → String → List (FVal F) → Option (List (FVal F))
  | 0, _, _ => none
  | fuel + 1, name, args => do
    let f ← findFunction prog name
    if f.lowered && allFit (f.params.map Param.ty) args then
      let ρ ← computeStms strict fl (computeFunction prog fuel) prog.consts Binding.empty
      let ρ ← ρ.bind (paramNames f.params) args
      computeBody strict fl (computeFunction prog fuel) f.body ρ
    else none

/-- The computation meets only maps and reductions whose loads at gtids end where their spaces
do, with a load along the last dimension of each reduction. -/
def KernelsFilled (prog : Prog) (fuel : Nat) (name : String) (args : List (FVal F)) : Prop :=
  (computeFunction true fl prog fuel name args).isSome = true

end Programs

end FutharkMlir
