import FutharkMlir.Functions.Once
import FutharkMlir.Lib.Binding

/-! The types of the sequential part of the representation. Code that has a type is
accepted by the compiler, and every value has the type its name declares. -/
namespace FutharkMlir

/-- The environment of the compiler has a related value for every name bound in `m`. -/
def Ctx.Related {β : Type} (R : Value → β → Prop) (ctx : Ctx) (m : Binding VName β) : Prop :=
  ∀ x y, m x = some y → ∃ v, ctx x = some v ∧ R v y

namespace Ctx.Related

variable {β : Type} {R : Value → β → Prop} {ctx : Ctx} {m m' : Binding VName β}

theorem insert (h : ctx.Related R m) {x : VName} {v : Value} {y : β} (rel : R v y) :
    (ctx.insert x v).Related R (m.insert x y) := by
  intro z w hw
  by_cases eq : z = x
  · rw [eq, Binding.insert_self] at hw
    cases hw
    exact ⟨v, by rw [eq, Ctx.insert_self], rel⟩
  · rw [Binding.insert_of_ne _ _ eq] at hw
    rw [Ctx.insert_of_ne _ _ eq]
    exact h z w hw

theorem insertAll (h : ctx.Related R m) {names : List VName} {vs : List Value} {ys : List β}
    (bound : m.bind names ys = some m') (rel : List.Forall₂ R vs ys) :
    (ctx.insertAll (names.zip vs)).Related R m' := by
  induction names generalizing ctx m vs ys with
  | nil =>
    cases ys with
    | nil =>
      cases bound
      exact h
    | cons y ys => cases bound
  | cons x names ih =>
    cases rel with
    | nil => cases bound
    | cons hv hvs => exact ih (h.insert hv) bound hvs

theorem congr {ctx' : Ctx} (h : ctx.Related R m) (same : ∀ x, m x ≠ none → ctx' x = ctx x) :
    ctx'.Related R m := by
  intro x y hy
  rw [same x (by rw [hy]; exact Option.some_ne_none y)]
  exact h x y hy

end Ctx.Related

theorem zip_map_fst {α : Type} (f : α → String) (xs : List α) (vs : List Value) :
    ((xs.zip vs).map fun p => (f p.1, p.2)) = (xs.map f).zip vs := by
  induction xs generalizing vs with
  | nil => rfl
  | cons x xs ih =>
    cases vs with
    | nil => rfl
    | cons v vs => simp [ih]

abbrev Types := Binding VName Ty

def Ty.scalar : Ty → Option PrimType
  | .prim .unit => none
  | .prim t => some t
  | _ => none

def PrimValue.type : PrimValue → Option PrimType
  | .int c => some (.int c.t)
  | .float c => some (.float c.getType)
  | .bool _ => some .bool
  | .unit => none

def typeSubExp (Γ : Types) : SubExp → Option PrimType
  | .const c => c.type
  | .var x => (Γ x).bind Ty.scalar

/-- The type of the operands and of the result, of the operators the compiler lowers. -/
def BinOp.type : BinOp → Option PrimType
  | .add t _ | .sub t _ | .mul t _ | .squot t | .sdivUp t => some (.int t)
  | .fadd t | .fmul t | .fsub t | .fdiv t | .fmax t | .fpow t => some (.float t)
  | _ => none

def CmpOp.type : CmpOp → Option PrimType
  | .eq (.int t) => some (.int t)
  | .eq (.float t) => some (.float t)
  | .ult t | .ule t | .slt t | .sle t => some (.int t)
  | .flt t | .fle t => some (.float t)
  | _ => none

/-- An integer is extended to a strictly wider type. -/
def ConvOp.type : ConvOp → Option (PrimType × PrimType)
  | .zext src dst | .sext src dst =>
    if src.getWidth < dst.getWidth then some (.int src, .int dst) else none
  | .sitofp src dst => some (.int src, .float dst)
  | _ => none

def typeFixed (Γ : Types) : DimIndex → Option IntType
  | .fix i => match typeSubExp Γ i with
    | some (.int t) => some t
    | _ => none
  | .slice _ _ _ => none

def typeBasicOp (Γ : Types) : BasicOp → Option PrimType
  | .subExp se => typeSubExp Γ se
  | .binOp op a b => do
    let t ← op.type
    if typeSubExp Γ a = some t ∧ typeSubExp Γ b = some t then some t else none
  | .cmpOp op a b => do
    let t ← op.type
    if typeSubExp Γ a = some t ∧ typeSubExp Γ b = some t then some .bool else none
  | .convOp op a => do
    let t ← op.type
    if typeSubExp Γ a = some t.1 then some t.2 else none
  | .index arr dims => do
    let _ ← dims.mapM (typeFixed Γ)
    match Γ arr with
    | some (.array elem shape) =>
      if dims.length = shape.length then Ty.scalar (.prim elem) else none
    | _ => none
  | _ => none

/-- The types of the parameters and results of a function that is lowered and takes and
returns scalars. -/
def scalarSig (prog : Prog) (fname : String) : Option (List PrimType × List PrimType) := do
  let f ← findFunction prog fname
  if f.lowered then
    let params ← (f.params.map Param.ty).mapM Ty.scalar
    let results ← f.retType.mapM Ty.scalar
    return (params, results)
  else none

variable (prog : Prog)

mutual

def typeStms : List Stm → Types → Option Types
  | [], Γ => some Γ
  | stm :: rest, Γ => do
    let Γ ← typeStm stm Γ
    typeStms rest Γ

/-- A pattern declares the types of the values it is bound to. -/
def typeStm : Stm → Types → Option Types
  | .mk pat exp, Γ => do
    let tys ← typeExp exp Γ
    if pat.map PatElem.ty = tys.map .prim then
      Γ.bind (pat.map PatElem.name) (pat.map PatElem.ty)
    else none

def typeBody : Body → Types → Option (List PrimType)
  | .mk stms result, Γ => do
    let Γ ← typeStms stms Γ
    result.mapM (typeSubExp Γ)

def typeExp : Exp → Types → Option (List PrimType)
  | .basicOp op, Γ => do
    let t ← typeBasicOp Γ op
    return [t]
  | .subExp se, Γ => do
    let t ← typeSubExp Γ se
    return [t]
  | .apply fname args retTypes, Γ => do
    let sig ← scalarSig prog fname
    let tys ← args.mapM (typeSubExp Γ)
    if tys = sig.1 ∧ retTypes = sig.2.map .prim then some sig.2 else none
  | .ite cond thenBody elseBody retTypes, Γ => do
    let c ← typeSubExp Γ cond
    let thenTys ← typeBody thenBody Γ
    let elseTys ← typeBody elseBody Γ
    if c = .bool ∧ thenTys = elseTys ∧ retTypes = thenTys.map .prim then some thenTys else none
  | .loop merge (.forLoop i t bound) body, Γ => do
    let tys ← (merge.map Prod.snd).mapM (typeSubExp Γ)
    let n ← typeSubExp Γ bound
    let inner ← (Γ.insert i (.prim (.int t))).bind (mergeNames merge) (merge.map fun m => m.1.ty)
    let results ← typeBody body inner
    if n = .int t ∧ (merge.map fun m => m.1.ty) = tys.map .prim ∧ results = tys then some tys
    else none
  | .loop _ (.whileLoop _) _, _ => none
  | .hostOp _, _ => none

end

/-- The constants and the function have types, and the function returns what it declares. -/
def typeFunction (f : FunDef) : Option (List PrimType × List PrimType) := do
  let sig ← scalarSig prog f.name
  let Γ ← typeStms prog prog.consts Binding.empty
  let Γ ← Γ.bind (paramNames f.params) (f.params.map Param.ty)
  let results ← typeBody prog f.body Γ
  if results = sig.2 then some sig else none

def HasType (v : Value) (t : PrimType) : Prop := lowerTy (.prim t) = .ok v.ty

/-- The value has the MLIR type of the scalar, or the rank and element type of the array. -/
def HasTy (v : Value) : Ty → Prop
  | .prim t => HasType v t
  | .array elem shape => ∃ s e, v.ty = .tensor s e ∧ lowerPrimType elem = .ok e ∧
      s.length = shape.length
  | _ => False

def FreshNames (Γ : Types) (names : List VName) : Prop := names.Nodup ∧ ∀ x ∈ names, Γ x = none

namespace FreshNames

variable {Γ Γ' : Types} {xs ys names : List VName} {tys : List Ty}

theorem sublist (h : FreshNames Γ xs) (sub : ys.Sublist xs) : FreshNames Γ ys :=
  ⟨h.1.sublist sub, fun x hx => h.2 x (sub.subset hx)⟩

/-- The names that remain are new once the first ones are bound. -/
theorem bind (h : FreshNames Γ (names ++ ys)) (bound : Γ.bind names tys = some Γ') :
    FreshNames Γ' ys := by
  obtain ⟨_, nodup, disjoint⟩ := List.nodup_append.mp h.1
  refine ⟨nodup, fun x hx => ?_⟩
  rw [Binding.bind_of_not_mem bound fun old => disjoint x old x hx rfl]
  exact h.2 x (List.mem_append_right _ hx)

theorem extends_bind (h : FreshNames Γ names) (bound : Γ.bind names tys = some Γ') : Γ.Sub Γ' :=
  .bind bound h.2

end FreshNames

end FutharkMlir
