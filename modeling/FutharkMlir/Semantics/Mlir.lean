import FutharkMlir.Lib.Binding
import FutharkMlir.Lib.Points
import FutharkMlir.Lib.Positions
import FutharkMlir.Lib.UnitDims
import FutharkMlir.Mlir.Builder

/-! The meaning of the operations the compiler builds: values, environments and the
execution of blocks. Where MLIR leaves the behaviour undefined, or the operation is not
valid, there is no result. -/
namespace FutharkMlir

/-- A rectangular array: its extents and the element at every point. -/
structure Tensor (α : Type) where
  shape : List Nat
  get : List Nat → α

namespace Tensor

variable {α : Type}

def toList (t : Tensor α) : List α := (points t.shape).map t.get

def set (t : Tensor α) (p : List Nat) (x : α) : Tensor α :=
  { t with get := fun q => if q = p then x else t.get q }

def reshape (t : Tensor α) (shape : List Nat) : Tensor α :=
  { shape, get := fun p => t.get (unlinear t.shape (linear shape p)) }

end Tensor

inductive Scalar (F : Type) where
  | int (width : Nat) (v : BitVec width)
  | index (v : BitVec 64)
  | float (t : FloatType) (x : F)

inductive MVal (F : Type) where
  | scalar (s : Scalar F)
  | tensor (t : Tensor (Scalar F))

/-- Floating-point arithmetic, which both languages take from the machine. -/
structure FloatOps (F : Type) where
  literal : FloatType → FloatLit → F
  add : FloatType → F → F → F
  mul : FloatType → F → F → F
  sub : FloatType → F → F → F
  div : FloatType → F → F → F
  max : FloatType → F → F → F
  pow : FloatType → F → F → F
  eq : F → F → Bool
  lt : F → F → Bool
  le : F → F → Bool
  ofInt : FloatType → Int → F

/-- What is left open besides: the contents of a tensor nothing is written to yet, and the
order in which the iterations of a parallel loop run. -/
structure Machine (F : Type) extends FloatOps F where
  contents : MlirTy → List Nat → Scalar F
  schedule : List (List Nat) → List (List Nat)
  schedule_perm : ∀ ps, (schedule ps).Perm ps

/-- A machine with one floating-point number, on which iterations run in order. -/
def unitMachine : Machine Unit where
  literal _ _ := ()
  add _ _ _ := ()
  mul _ _ _ := ()
  sub _ _ _ := ()
  div _ _ _ := ()
  max _ _ _ := ()
  pow _ _ _ := ()
  eq _ _ := true
  lt _ _ := false
  le _ _ := true
  ofInt _ _ := ()
  contents _ _ := .index 0
  schedule ps := ps
  schedule_perm _ := .refl _

/-- The value of an array of integers, the first one of its function. -/
def arrayValue (shape : List Int) : Value := { func := "f", id := 0, ty := .tensor shape (.int 64) }

def countUp (shape : List Nat) : Tensor (Scalar Unit) :=
  { shape, get := fun p => .int 64 (BitVec.ofNat 64 (linear shape p)) }

/-- The insertion of a slice that an iteration of an `scf.forall` asks for. -/
structure Write (F : Type) where
  target : Value
  offsets : List Nat
  sizes : List Nat
  source : Tensor (Scalar F)

/-- A region as its operation sees it: the block arguments, and what running it at a point
of the enclosing `linalg.generic` yields and inserts. -/
structure Region (F : Type) where
  args : List Value
  run : List Nat → List (MVal F) → Option (List (MVal F) × List (Write F))

namespace MVal

variable {F : Type}

def toScalar : MVal F → Option (Scalar F)
  | .scalar s => some s
  | .tensor _ => none

def toTensor : MVal F → Option (Tensor (Scalar F))
  | .scalar _ => none
  | .tensor t => some t

def toIndex : MVal F → Option Nat
  | .scalar (.index v) => if v.msb then none else some v.toNat
  | _ => none

/-- An offset, which nothing is read at where the slice is empty. -/
def toInt : MVal F → Option Int
  | .scalar (.index v) => some v.toInt
  | _ => none

def ofIndex (n : Nat) : MVal F := .scalar (.index (BitVec.ofNat 64 n))

/-- A scalar operand of a `linalg.generic` is one of rank zero. -/
def extents : MVal F → List Nat
  | .scalar _ => []
  | .tensor t => t.shape

def element : MVal F → List Nat → Scalar F
  | .scalar s, _ => s
  | .tensor t, p => t.get p

end MVal

section Scalars

variable {F : Type} (fl : FloatOps F)

/-- Rounding up of an integer quotient. -/
def ceilQuotient (x y : Int) : Int := -(Int.fdiv (-x) y)

/-- No result where the quotient does not exist or does not fit. -/
def signedQuotient {w : Nat} (round : Int → Int → Int) (a b : BitVec w) : Option (BitVec w) :=
  if b.toInt = 0 ∨ (a = BitVec.intMin w ∧ b.toInt = -1) then none
  else some (BitVec.ofInt w (round a.toInt b.toInt))

def arithInt {w : Nat} (op : ArithOp) (a b : BitVec w) : Option (BitVec w) :=
  match op with
  | .addi => some (a + b)
  | .subi => some (a - b)
  | .muli => some (a * b)
  | .divsi => signedQuotient Int.tdiv a b
  | .ceildivsi => signedQuotient ceilQuotient a b
  | _ => none

def arithFloat (op : ArithOp) (t : FloatType) (a b : F) : Option F :=
  match op with
  | .addf => some (fl.add t a b)
  | .mulf => some (fl.mul t a b)
  | .subf => some (fl.sub t a b)
  | .divf => some (fl.div t a b)
  | .maxnumf => some (fl.max t a b)
  | _ => none

def arithScalar (op : ArithOp) : Scalar F → Scalar F → Option (Scalar F)
  | .int w a, .int w' b =>
    if h : w' = w then (arithInt op a (b.cast h)).map (.int w) else none
  | .index a, .index b => (arithInt op a b).map .index
  | .float t a, .float t' b => if t = t' then (arithFloat fl op t a b).map (.float t) else none
  | _, _ => none

def CmpIPredicate.holds {w : Nat} : CmpIPredicate → BitVec w → BitVec w → Bool
  | .eq, a, b => a == b
  | .slt, a, b => a.slt b
  | .sle, a, b => a.sle b
  | .ult, a, b => a.ult b
  | .ule, a, b => a.ule b

def CmpFPredicate.holds : CmpFPredicate → F → F → Bool
  | .oeq => fl.eq
  | .olt => fl.lt
  | .ole => fl.le

def Scalar.ofBool (b : Bool) : Scalar F := .int 1 (BitVec.ofBool b)

def compareInt (p : CmpIPredicate) : Scalar F → Scalar F → Option (Scalar F)
  | .int w a, .int w' b => if h : w' = w then some (.ofBool (p.holds a (b.cast h))) else none
  | .index a, .index b => some (.ofBool (p.holds a b))
  | _, _ => none

def compareFloat (p : CmpFPredicate) : Scalar F → Scalar F → Option (Scalar F)
  | .float t a, .float t' b => if t = t' then some (.ofBool (p.holds fl a b)) else none
  | _, _ => none

/-- `arith.index_cast` extends by the sign and truncates. -/
def castIndex : Scalar F → MlirTy → Option (Scalar F)
  | .int _ a, .scalar .index => some (.index (a.signExtend 64))
  | .index a, .scalar (.int w) => some (.int w (a.signExtend w))
  | _, _ => none

def TypedAttr.value : TypedAttr → Scalar F
  | .integer w v => .int w v
  | .float t v => .float t (fl.literal t v)
  | .index n => .index (BitVec.ofInt 64 n)

end Scalars

section Shapes

/-- The extents of a shape whose dynamic dimensions are given in order. -/
def resolveShape : List Int → List Nat → Option (List Nat)
  | [], [] => some []
  | [], _ :: _ => none
  | d :: shape, sizes =>
    if isDynamic d then
      match sizes with
      | [] => none
      | n :: sizes => (resolveShape shape sizes).map (n :: ·)
    else if d < 0 then none
    else (resolveShape shape sizes).map (d.toNat :: ·)

def dimFits (d : Int) (n : Nat) : Prop := isDynamic d = true ∨ d = n

instance (d : Int) (n : Nat) : Decidable (dimFits d n) := inferInstanceAs (Decidable (_ ∨ _))

def Fits (shape : List Int) (extents : List Nat) : Prop := List.Forall₂ dimFits shape extents

instance (shape : List Int) (extents : List Nat) : Decidable (Fits shape extents) :=
  inferInstanceAs (Decidable (List.Forall₂ _ _ _))

/-- Consecutive positions, all of them, in order. -/
def groupsCover (groups : List (List Nat)) (rank : Nat) : Bool := groups.flatten == List.range rank

def collapsedExtents (groups : List (List Nat)) (extents : List Nat) : List Nat :=
  groups.map fun g => (g.map fun i => extents.getD i 1).prod

/-- The extents of the parts of one dimension that is split: the one dynamic part is what
is left, which has to be a quotient. -/
def expandedGroup (n : Nat) (parts : List Int) : Option (List Nat) :=
  let known := ((parts.filter fun d => !isDynamic d).map Int.toNat).prod
  match parts.filter isDynamic with
  | [] => if known = n then some (parts.map Int.toNat) else none
  | [_] =>
    if known = 0 ∨ n % known ≠ 0 then none
    else some (parts.map fun d => if isDynamic d then n / known else d.toNat)
  | _ => none

/-- The extents of the dimensions that others are split into. -/
def expandedExtents (groups : List (List Nat)) (extents : List Nat) (shape : List Int) :
    Option (List Nat) :=
  (groups.zip extents).foldrM (fun p rest => do
    let parts ← expandedGroup p.2 (p.1.map fun i => shape.getD i 1)
    return parts ++ rest) []

/-- The extents `tensor.collapse_shape` gives. A tensor of rank zero is one element, whatever
the groups. -/
def collapseExtents (groups : List (List Nat)) (extents : List Nat) (shape : List Int) :
    Option (List Nat) :=
  if shape = [] then if extents.prod = 1 then some [] else none
  else if groupsCover groups extents.length ∧ Fits shape (collapsedExtents groups extents) then
    some (collapsedExtents groups extents)
  else none

/-- The extents `tensor.expand_shape` gives. One element has unit dimensions only. -/
def expandExtents (groups : List (List Nat)) (extents : List Nat) (shape : List Int) :
    Option (List Nat) :=
  if extents = [] then if ∀ d ∈ shape, d = 1 then some (shape.map Int.toNat) else none
  else if groupsCover groups shape.length ∧ groups.length = extents.length then
    expandedExtents groups extents shape
  else none

end Shapes

section Slices

variable {α : Type}

/-- Integers of which the dynamic ones are given in order, and the rest of these. -/
def resolveInts : List (Option Int) → List Int → Option (List Int × List Int)
  | [], dyn => some ([], dyn)
  | some n :: rest, dyn => (resolveInts rest dyn).map fun r => (n :: r.1, r.2)
  | none :: rest, n :: dyn => (resolveInts rest dyn).map fun r => (n :: r.1, r.2)
  | none :: _, [] => none

/-- Where a point of a slice lies in the source, by the offset and stride of each dimension. -/
def sliceAt : List (Int × Int) → List Nat → List Int
  | q :: steps, i :: p => (q.1 + i * q.2) :: sliceAt steps p
  | _, _ => []

def Reads (shape : List Nat) (c : List Int) : Prop :=
  List.Forall₂ (fun (n : Nat) (i : Int) => 0 ≤ i ∧ i < n) shape c

instance (shape : List Nat) (c : List Int) : Decidable (Reads shape c) :=
  inferInstanceAs (Decidable (List.Forall₂ _ _ _))

/-- `tensor.extract_slice`: what it reads exists, and a result of smaller rank lacks unit
dimensions. -/
def Tensor.slice (t : Tensor α) (offsets sizes strides : List (Option Int)) (dynamic : List Int)
    (shape : List Int) : Option (Tensor α) := do
  let (starts, dyn) ← resolveInts offsets dynamic
  let (lengths, dyn) ← resolveInts sizes dyn
  let (steps, dyn) ← resolveInts strides dyn
  let kept ← keptDims (sizes.map fun size => size.getD kDynamic) shape
  let extents := lengths.map Int.toNat
  let at' := sliceAt (starts.zip steps)
  if dyn = [] ∧ starts.length = t.shape.length ∧ lengths.length = t.shape.length ∧
      steps.length = t.shape.length ∧ (∀ n ∈ lengths, 0 ≤ n) ∧
      ∀ p ∈ points extents, Reads t.shape (at' p) then
    return ⟨keepDims kept extents, fun q => t.get ((at' (restoreDims kept q)).map Int.toNat)⟩
  else none

/-- `linalg.broadcast`: the added dimensions repeat the source. -/
def Tensor.broadcast (t : Tensor α) (dims : List Nat) (extents : List Nat) : Option (Tensor α) :=
  let kept := others extents.length (dims.map Int.ofNat)
  if Positions extents.length (dims.map Int.ofNat) ∧ t.shape = kept.map (extents.getD · 0) then
    some ⟨extents, fun p => t.get (kept.map (p.getD · 0))⟩
  else none

def Tensor.ofList (d : α) (shape : List Int) (xs : List α) : Option (Tensor α) := do
  let extents ← resolveShape shape []
  if xs.length = extents.prod then
    return ⟨extents, fun p => xs.getD (linear extents p) d⟩
  else none

end Slices

section Generic

variable {F : Type}

def AffineMap.project (m : AffineMap) (p : List Nat) : List Nat := m.results.map fun d => p.getD d 0

def extentsAt (maps : List AffineMap) (shapes : List (List Nat)) (d : Nat) : List Nat :=
  (maps.zip shapes).flatMap fun p =>
    ((p.1.results.zip p.2).filter fun q => q.1 == d).map Prod.snd

def commonExtent : List Nat → Option Nat
  | [] => none
  | n :: rest => if rest.all (· == n) then some n else none

/-- Every operand has one dimension for each result of its map. -/
def mapsFit (rank : Nat) (maps : List AffineMap) (shapes : List (List Nat)) : Bool :=
  maps.length == shapes.length &&
    (maps.zip shapes).all fun p => p.1.rank == rank && p.1.results.length == p.2.length

/-- The bounds of a `linalg.generic`: every dimension has the extent all operands that
mention it agree on. -/
def genericDomain (rank : Nat) (maps : List AffineMap) (shapes : List (List Nat)) :
    Option (List Nat) :=
  if mapsFit rank maps shapes then
    (List.range rank).mapM fun d => commonExtent (extentsAt maps shapes d)
  else none

def genericStep (body : Region F) (inputs : List (AffineMap × MVal F)) (outMaps : List AffineMap)
    (outs : List (Tensor (Scalar F))) (p : List Nat) : Option (List (Tensor (Scalar F))) := do
  let ins := inputs.map fun q => MVal.scalar (q.2.element (q.1.project p))
  let accs := (outMaps.zip outs).map fun q => MVal.scalar (q.2.get (q.1.project p))
  let (yield, _) ← body.run p (ins ++ accs)
  let elements ← yield.mapM MVal.toScalar
  if elements.length = outs.length then
    return ((outMaps.zip outs).zip elements).map fun q => q.1.2.set (q.1.1.project p) q.2
  else none

def runGeneric (body : Region F) (numInputs : Nat) (maps : List AffineMap) (rank : Nat)
    (args : List (MVal F)) : Option (List (MVal F)) := do
  let bounds ← genericDomain rank maps (args.map MVal.extents)
  let outs ← (args.drop numInputs).mapM MVal.toTensor
  let results ← (points bounds).foldlM
    (genericStep body ((maps.zip args).take numInputs) (maps.drop numInputs)) outs
  return results.map .tensor

end Generic

section Loops

variable {F : Type}

def tripCount (lb ub step : Int) : Nat := ((ub - lb + step - 1) / step).toNat

def runFor (body : Region F) (point : List Nat) :
    List (MVal F) → Option (List (MVal F))
  | .scalar (.index lb) :: .scalar (.index ub) :: .scalar (.index step) :: inits =>
    if step.toInt ≤ 0 then none
    else (List.range (tripCount lb.toInt ub.toInt step.toInt)).foldlM (fun accs (i : Nat) => do
      let iv := MVal.scalar (.index (BitVec.ofInt 64 (lb.toInt + i * step.toInt)))
      let (next, _) ← body.run point (iv :: accs)
      if next.length = inits.length then return next else none) inits
  | _ => none

def inSlice : List Nat → List Nat → List Nat → Bool
  | [], [], [] => true
  | o :: offsets, n :: sizes, i :: p => o ≤ i && i < o + n && inSlice offsets sizes p
  | _, _, _ => false

/-- A source of smaller rank lacks unit dimensions at the front. -/
def Write.apply (w : Write F) (t : Tensor (Scalar F)) : Tensor (Scalar F) :=
  { t with get := fun p =>
      if inSlice w.offsets w.sizes p then
        w.source.get ((p.zipWith (· - ·) w.offsets).drop (p.length - w.source.shape.length))
      else t.get p }

/-- The slice lies in the target and the source fills it. -/
def Write.valid (w : Write F) (target : Tensor (Scalar F)) : Bool :=
  w.offsets.length == target.shape.length && w.sizes.length == target.shape.length &&
    ((w.offsets.zip w.sizes).zip target.shape).all (fun q => q.1.1 + q.1.2 ≤ q.2) &&
    (w.sizes.take (w.sizes.length - w.source.shape.length)).all (· == 1) &&
    w.sizes.drop (w.sizes.length - w.source.shape.length) == w.source.shape

/-- Positions of which the dynamic ones are given in order, and the rest of these. -/
def resolvePositions : List (Option Int) → List Nat → Option (List Nat × List Nat)
  | [], dyn => some ([], dyn)
  | some n :: rest, dyn =>
    if n < 0 then none
    else (resolvePositions rest dyn).map fun r => (n.toNat :: r.1, r.2)
  | none :: rest, n :: dyn => (resolvePositions rest dyn).map fun r => (n :: r.1, r.2)
  | none :: _, [] => none

def parallelInsert (operands : List Value) (offsets sizes strides : List (Option Int)) :
    List (MVal F) → Option (Write F)
  | .tensor source :: .tensor target :: dynamic => do
    let dyn ← dynamic.mapM MVal.toIndex
    let (offsets, dyn) ← resolvePositions offsets dyn
    let (sizes, dyn) ← resolvePositions sizes dyn
    let value ← operands[1]?
    let w : Write F := { target := value, offsets, sizes, source }
    if dyn = [] ∧ strides.all (· == some 1) ∧ w.valid target then return w else none
  | _ => none

/-- All iterations see the outputs as they were; what they insert is inserted in the order
in which they run. -/
def runForall (M : Machine F) (body : Region F) (point : List Nat) (resTys : List MlirTy)
    (args : List (MVal F)) : Option (List (MVal F)) := do
  let rank := args.length - resTys.length
  let bounds ← (args.take rank).mapM MVal.toIndex
  let outs ← (args.drop rank).mapM MVal.toTensor
  let writes ← (M.schedule (points bounds)).mapM fun p =>
    (body.run point (p.map MVal.ofIndex ++ args.drop rank)).map Prod.snd
  return ((body.args.drop rank).zip outs).map fun q =>
    .tensor (writes.flatten.foldl (fun t w => if w.target = q.1 then w.apply t else t) q.2)

end Loops

section Scatter

variable {F : Type}

/-- An index of a scatter, which may be negative. -/
def Scalar.toInt : Scalar F → Option Int
  | .int _ v => some v.toInt
  | .index v => some v.toInt
  | .float .. => none

/-- The updates in the order in which they are processed, each with its index. -/
def scatterOrder (M : Machine F) (indices : Tensor (Scalar F)) : Option (List (List Nat × Int)) :=
  (M.schedule (points indices.shape)).mapM fun p => (indices.get p).toInt.map fun i => (p, i)

/-- The addressed element becomes what the region gives for the update and that element. -/
def scatterElement (body : Region F) (point : List Nat) (update : Scalar F)
    (t : Tensor (Scalar F)) (q : List Nat) : Option (Tensor (Scalar F)) := do
  let (yield, _) ← body.run point [.scalar update, .scalar (t.get q)]
  match yield with
  | [.scalar x] => some (t.set q x)
  | _ => none

/-- An update is an element, or a row of them. Nothing checks its index, so outside of the
tensor there is no result. -/
def scatterStep (body : Region F) (point : List Nat) (updates t : Tensor (Scalar F))
    (u : List Nat × Int) : Option (Tensor (Scalar F)) :=
  if 0 ≤ u.2 ∧ u.2 < t.shape.headD 0 then
    (points t.shape.tail).foldlM (fun t q =>
      scatterElement body point (updates.get (u.1 ++ q)) t (u.2.toNat :: q)) t
  else none

/-- One index for each update, and updates of the extents of a row. -/
def runScatter (M : Machine F) (body : Region F) (point : List Nat) :
    List (MVal F) → Option (List (MVal F))
  | [.tensor updates, .tensor indices, .tensor original] =>
    if indices.shape.length = 1 ∧ original.shape ≠ [] ∧
        updates.shape = indices.shape ++ original.shape.tail then do
      let order ← scatterOrder M indices
      let t ← order.foldlM (scatterStep body point updates) original
      return [.tensor t]
    else none
  | _ => none

end Scatter

variable {F : Type} (M : Machine F) (call : String → List (MVal F) → Option (List (MVal F)))

def evalScalarOp (code : OpCode) (args : List (Scalar F)) (resTy : MlirTy) : Option (Scalar F) :=
  match code, args, resTy with
  | .arith op, [a, b], _ => arithScalar M.toFloatOps op a b
  | .cmpi p, [a, b], _ => compareInt p a b
  | .cmpf p, [a, b], _ => compareFloat M.toFloatOps p a b
  | .math .powf, [.float t a, .float t' b], _ =>
    if t = t' then some (.float t (M.pow t a b)) else none
  | .extui, [.int w a], .scalar (.int w') =>
    if w < w' then some (.int w' (a.setWidth w')) else none
  | .extsi, [.int w a], .scalar (.int w') =>
    if w < w' then some (.int w' (a.signExtend w')) else none
  | .sitofp, [.int _ a], .scalar (.float t) => some (.float t (M.ofInt t a.toInt))
  | .indexCast, [a], ty => castIndex a ty
  | _, _, _ => none

def evalTensorOp (code : OpCode) (args : List (MVal F)) (resTy : MlirTy) : Option (MVal F) :=
  match code, args, resTy with
  | .constant (.scalar a), [], _ => some (.scalar (a.value M.toFloatOps))
  | .tensorCast, [.tensor t], .tensor shape _ =>
    if Fits shape t.shape then some (.tensor t) else none
  | .tensorExtract, .tensor t :: indices, _ => do
    let p ← indices.mapM MVal.toIndex
    if InBounds t.shape p then return .scalar (t.get p) else none
  | .tensorInsert, .scalar s :: .tensor t :: indices, _ => do
    let p ← indices.mapM MVal.toIndex
    if InBounds t.shape p then return .tensor (t.set p s) else none
  | .tensorEmpty, sizes, .tensor shape elem => do
    let sizes ← sizes.mapM MVal.toIndex
    let extents ← resolveShape shape sizes
    return .tensor ⟨extents, M.contents (.tensor shape elem)⟩
  | .tensorDim, [.tensor t, .scalar (.index i)], _ => do
    let n ← t.shape[i.toNat]?
    return .ofIndex n
  | .collapseShape groups, [.tensor t], .tensor shape _ =>
    (collapseExtents groups t.shape shape).map fun extents => .tensor (t.reshape extents)
  | .expandShape groups, [.tensor t], .tensor shape _ =>
    (expandExtents groups t.shape shape).map fun extents => .tensor (t.reshape extents)
  | .constant (.dense _ _ vals), [], .tensor shape _ =>
    (Tensor.ofList (.index 0) shape (vals.map fun a => a.value M.toFloatOps)).map .tensor
  | .fromElements, args, .tensor shape _ => do
    let elements ← args.mapM MVal.toScalar
    let t ← Tensor.ofList (.index 0) shape elements
    return .tensor t
  | .broadcast dims, [.tensor s, .tensor t], _ => (s.broadcast dims t.shape).map .tensor
  | .tensorExtractSlice offsets sizes strides, .tensor t :: dynamic, .tensor shape _ => do
    let dynamic ← dynamic.mapM MVal.toInt
    let r ← t.slice offsets sizes strides dynamic shape
    return .tensor r
  | .fill, [.scalar s, .tensor t], _ => some (.tensor { t with get := fun _ => s })
  | .tieShape, t :: _, _ => some t
  | _, args, _ => do
    let scalars ← args.mapM MVal.toScalar
    let s ← evalScalarOp M code scalars resTy
    return .scalar s

/-- One operation: the values of its results and the insertions it asks for. -/
def evalOp (point : List Nat) (code : OpCode) (operands : List Value) (args : List (MVal F))
    (resTys : List MlirTy) (regions : List (Region F)) :
    Option (List (MVal F) × List (Write F)) :=
  match code, regions with
  | .call callee, [] => do
    let vals ← call callee args
    return (vals, [])
  | .scfIf, [thenRegion, elseRegion] =>
    match args with
    | [.scalar (.int 1 c)] => do
      let (vals, _) ← if c = 1 then thenRegion.run point [] else elseRegion.run point []
      return (vals, [])
    | _ => none
  | .scfFor, [body] => do
    let vals ← runFor body point args
    return (vals, [])
  | .scfForall, [body] => do
    let vals ← runForall M body point resTys args
    return (vals, [])
  | .generic numInputs maps iterTypes, [body] => do
    let vals ← runGeneric body numInputs maps iterTypes.length args
    return (vals, [])
  | .scatter [0] _, [body] => do
    let vals ← runScatter M body point args
    return (vals, [])
  | .inParallel, [body] => do
    let (_, writes) ← body.run point []
    return ([], writes)
  | .parallelInsertSlice offsets sizes strides, [] => do
    let w ← parallelInsert operands offsets sizes strides args
    return ([], [w])
  | .linalgIndex d, [] => do
    let i ← point[d]?
    return ([.ofIndex i], [])
  | code, [] => do
    let ty ← resTys.head?
    let v ← evalTensorOp M code args ty
    return ([v], [])
  | _, _ => none

abbrev Env (F : Type) := Binding Value (MVal F)

mutual

def execOp : Op → List Nat → Env F → Option (Env F × List (Write F))
  | .mk code operands results regions, point, env => do
    let args ← operands.mapM env
    let (vals, writes) ←
      evalOp M call point code operands args (results.map Value.ty) (regionsOf regions env)
    let env ← env.bind results vals
    return (env, writes)

def execBlock : Block → List Nat → Env F → List (MVal F) → Option (List (MVal F) × List (Write F))
  | .mk args ops yield, point, env, vals => do
    let env ← env.bind args vals
    let (env, writes) ← execOps ops point env
    let results ← yield.mapM env
    return (results, writes)

def execOps : List Op → List Nat → Env F → Option (Env F × List (Write F))
  | [], _, env => some (env, [])
  | op :: rest, point, env => do
    let (env, writes) ← execOp op point env
    let (env, writes') ← execOps rest point env
    return (env, writes ++ writes')

def regionsOf : List Block → Env F → List (Region F)
  | [], _ => []
  | block :: rest, env =>
    { args := block.args, run := fun point vals => execBlock block point env vals } ::
      regionsOf rest env

end

/-- A call of a function of the module; calls nest to a depth of at most `fuel`. -/
def callFunc (module : List FuncOp) : Nat → String → List (MVal F) → Option (List (MVal F))
  | 0, _, _ => none
  | fuel + 1, name, args => do
    let func ← module.find? fun f => f.sig.name = name
    let body ← func.body
    let (results, _) ← execBlock M (callFunc module fuel) body [] Binding.empty args
    return results

end FutharkMlir
