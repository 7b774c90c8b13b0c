import FutharkMlir.Semantics.Mlir

/-! The meaning of the sequential part of the intermediate representation: scalars,
loads, branches, counted loops and applications. A host operation or an operation on whole
arrays has no result here. -/
namespace FutharkMlir

inductive PVal (F : Type) where
  | int (t : IntType) (v : BitVec t.getWidth)
  | float (t : FloatType) (x : F)
  | bool (b : Bool)

inductive FVal (F : Type) where
  | prim (p : PVal F)
  | array (a : Tensor (PVal F))

abbrev Store (F : Type) := Binding VName (FVal F)

variable {F : Type}

namespace PVal

def asInt (t : IntType) : PVal F → Option (BitVec t.getWidth)
  | .int t' v => if h : t' = t then some (v.cast (congrArg IntType.getWidth h)) else none
  | _ => none

def asFloat (t : FloatType) : PVal F → Option F
  | .float t' x => if t' = t then some x else none
  | _ => none

def toIndex : PVal F → Option Nat
  | .int _ v => if v.msb then none else some v.toNat
  | _ => none

theorem asInt_eq_some {t : IntType} {p : PVal F} {v : BitVec t.getWidth} :
    p.asInt t = some v ↔ p = .int t v := by
  cases p with
  | int t' v' =>
    by_cases h : t' = t
    · subst h
      simp [asInt]
    · simp only [asInt, h, dite_false, reduceCtorEq, false_iff]
      intro eq
      cases eq
      exact h rfl
  | float t' x => simp [asInt]
  | bool b => simp [asInt]

theorem asFloat_eq_some {t : FloatType} {p : PVal F} {x : F} :
    p.asFloat t = some x ↔ p = .float t x := by
  cases p with
  | int t' v => simp [asFloat]
  | float t' y =>
    by_cases h : t' = t
    · simp [asFloat, h]
    · simp [asFloat, h]
  | bool b => simp [asFloat]

end PVal

def FVal.toPrim : FVal F → Option (PVal F)
  | .prim p => some p
  | .array _ => none

variable (fl : FloatOps F)

def PrimValue.value : PrimValue → Option (PVal F)
  | .int c => some (.int c.t c.v)
  | .float c => some (.float c.getType (fl.literal c.getType c.getValue))
  | .bool b => some (.bool b)
  | .unit => none

def evalSubExp (ρ : Store F) : SubExp → Option (FVal F)
  | .const c => (c.value fl).map .prim
  | .var x => ρ x

def evalPrim (ρ : Store F) (se : SubExp) : Option (PVal F) :=
  (evalSubExp fl ρ se).bind FVal.toPrim

/-- The operation on the integers themselves, taken back to the machine integers; under
`undef`, and for a quotient, it has to fit. -/
def machineInt {w : Nat} (fits : Bool) (n : Int) : Option (BitVec w) :=
  if fits ∧ (BitVec.ofInt w n).toInt ≠ n then none else some (BitVec.ofInt w n)

def Overflow.fits : Overflow → Bool
  | .wrap => false
  | .undef => true

def intBinOp (t : IntType) (f : Int → Int → Option (BitVec t.getWidth)) (x y : PVal F) :
    Option (PVal F) := do
  let a ← x.asInt t
  let b ← y.asInt t
  let c ← f a.toInt b.toInt
  return .int t c

def floatBinOp (t : FloatType) (f : F → F → F) (x y : PVal F) : Option (PVal F) := do
  let a ← x.asFloat t
  let b ← y.asFloat t
  return .float t (f a b)

/-- A quotient needs a divisor that is not zero. -/
def machineQuotient {w : Nat} (round : Int → Int → Int) (x y : Int) : Option (BitVec w) :=
  if y = 0 then none else machineInt true (round x y)

/-- The operators the compiler lowers. -/
def evalBinOp (op : BinOp) (x y : PVal F) : Option (PVal F) :=
  match op with
  | .add t ovf => intBinOp t (fun a b => machineInt ovf.fits (a + b)) x y
  | .sub t ovf => intBinOp t (fun a b => machineInt ovf.fits (a - b)) x y
  | .mul t ovf => intBinOp t (fun a b => machineInt ovf.fits (a * b)) x y
  | .squot t => intBinOp t (machineQuotient Int.tdiv) x y
  | .sdivUp t => intBinOp t (machineQuotient ceilQuotient) x y
  | .fadd t => floatBinOp t (fl.add t) x y
  | .fmul t => floatBinOp t (fl.mul t) x y
  | .fsub t => floatBinOp t (fl.sub t) x y
  | .fdiv t => floatBinOp t (fl.div t) x y
  | .fmax t => floatBinOp t (fl.max t) x y
  | .fpow t => floatBinOp t (fl.pow t) x y
  | _ => none

def intCmpOp (t : IntType) (f : BitVec t.getWidth → BitVec t.getWidth → Bool) (x y : PVal F) :
    Option (PVal F) := do
  let a ← x.asInt t
  let b ← y.asInt t
  return .bool (f a b)

def floatCmpOp (t : FloatType) (f : F → F → Bool) (x y : PVal F) : Option (PVal F) := do
  let a ← x.asFloat t
  let b ← y.asFloat t
  return .bool (f a b)

def evalCmpOp (op : CmpOp) (x y : PVal F) : Option (PVal F) :=
  match op with
  | .eq (.int t) => intCmpOp t (fun a b => a == b) x y
  | .eq (.float t) => floatCmpOp t fl.eq x y
  | .slt t => intCmpOp t (fun a b => decide (a.toInt < b.toInt)) x y
  | .sle t => intCmpOp t (fun a b => decide (a.toInt ≤ b.toInt)) x y
  | .ult t => intCmpOp t (fun a b => decide (a.toNat < b.toNat)) x y
  | .ule t => intCmpOp t (fun a b => decide (a.toNat ≤ b.toNat)) x y
  | .flt t => floatCmpOp t fl.lt x y
  | .fle t => floatCmpOp t fl.le x y
  | _ => none

def evalConvOp (op : ConvOp) (x : PVal F) : Option (PVal F) :=
  match op with
  | .zext src dst => do
    let a ← x.asInt src
    return .int dst (a.setWidth dst.getWidth)
  | .sext src dst => do
    let a ← x.asInt src
    return .int dst (a.signExtend dst.getWidth)
  | .sitofp src dst => do
    let a ← x.asInt src
    return .float dst (fl.ofInt dst a.toInt)
  | _ => none

def evalPosition (ρ : Store F) : DimIndex → Option Nat
  | .fix i => (evalPrim fl ρ i).bind PVal.toIndex
  | .slice _ _ _ => none

def evalIndex (ρ : Store F) (arr : VName) (dims : List DimIndex) : Option (PVal F) :=
  match ρ arr with
  | some (.array a) => do
    let p ← dims.mapM (evalPosition fl ρ)
    if InBounds a.shape p then return a.get p else none
  | _ => none

def evalBasicOp (ρ : Store F) (op : BasicOp) : Option (FVal F) :=
  match op with
  | .subExp se => evalSubExp fl ρ se
  | .binOp op a b => do
    let x ← evalPrim fl ρ a
    let y ← evalPrim fl ρ b
    let z ← evalBinOp fl op x y
    return .prim z
  | .cmpOp op a b => do
    let x ← evalPrim fl ρ a
    let y ← evalPrim fl ρ b
    let z ← evalCmpOp fl op x y
    return .prim z
  | .convOp op a => do
    let x ← evalPrim fl ρ a
    let z ← evalConvOp fl op x
    return .prim z
  | .index arr dims => (evalIndex fl ρ arr dims).map .prim
  | _ => none

/-- The iterations of a counted loop, with what they carry. -/
def evalFor (i : VName) (t : IntType) (params : List VName)
    (body : Store F → Option (List (FVal F))) (ρ : Store F) (n : Int) (inits : List (FVal F)) :
    Option (List (FVal F)) :=
  (List.range n.toNat).foldlM (fun accs k => do
    let counter := FVal.prim (.int t (BitVec.ofNat t.getWidth k))
    let ρ ← (ρ.insert i counter).bind params accs
    body ρ) inits

variable (call : String → List (FVal F) → Option (List (FVal F)))

mutual

def evalStms : List Stm → Store F → Option (Store F)
  | [], ρ => some ρ
  | stm :: rest, ρ => do
    let ρ ← evalStm stm ρ
    evalStms rest ρ

def evalStm : Stm → Store F → Option (Store F)
  | .mk pat exp, ρ => do
    let vs ← evalExp exp ρ
    ρ.bind (pat.map PatElem.name) vs

def evalBody : Body → Store F → Option (List (FVal F))
  | .mk stms result, ρ => do
    let ρ ← evalStms stms ρ
    result.mapM (evalSubExp fl ρ)

def evalExp : Exp → Store F → Option (List (FVal F))
  | .basicOp op, ρ => do
    let v ← evalBasicOp fl ρ op
    return [v]
  | .subExp se, ρ => do
    let v ← evalSubExp fl ρ se
    return [v]
  | .apply fname args _, ρ => do
    let vs ← args.mapM (evalSubExp fl ρ)
    call fname vs
  | .ite cond thenBody elseBody _, ρ => do
    match ← evalPrim fl ρ cond with
    | .bool true => evalBody thenBody ρ
    | .bool false => evalBody elseBody ρ
    | _ => none
  | .loop merge (.forLoop i t bound) body, ρ => do
    let inits ← (merge.map Prod.snd).mapM (evalSubExp fl ρ)
    let n ← (evalPrim fl ρ bound).bind (PVal.asInt t)
    evalFor i t (merge.map fun m => m.1.name) (evalBody body) ρ n.toInt inits
  | .loop _ (.whileLoop _) _, _ => none
  | .hostOp _, _ => none

end

/-- A function of the program: the constants in order, then the body with its parameters
bound. Applications nest to a depth of at most `fuel`. -/
def evalFunction (prog : Prog) : Nat → String → List (FVal F) → Option (List (FVal F))
  | 0, _, _ => none
  | fuel + 1, name, args => do
    let f ← prog.funs.find? fun f => f.name = name
    let ρ ← evalStms fl (evalFunction prog fuel) prog.consts Binding.empty
    let ρ ← ρ.bind (f.params.map Param.name) args
    evalBody fl (evalFunction prog fuel) f.body ρ

end FutharkMlir
