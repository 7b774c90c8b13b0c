import FutharkMlir.Mlir.Builder

namespace FutharkMlir

/-- What the compiler takes from outside: whether assertions are compiled in, and
MLIR's search for the grouping of a reshape. -/
structure Config where
  asserts : Bool
  getReassociationIndicesForReshape : List Int → List Int → Option (List (List Nat))

/-- A release build, and no grouping found for any reshape. -/
def releaseConfig : Config :=
  { asserts := false, getReassociationIndicesForReshape := fun _ _ => none }

/-- `assert`, which a release build leaves out. -/
def assertThat (cfg : Config) (c : Bool) : Except Err Unit :=
  if cfg.asserts && !c then .error .assertion else .ok ()

/-- `llvm::zip_equal`. Without assertions it stops at the end of its first range only,
so a second range that is shorter is read past its end. -/
def zipEqual {α β : Type} (cfg : Config) (xs : List α) (ys : List β) :
    Except Err (List (α × β)) :=
  if xs.length = ys.length then .ok (xs.zip ys)
  else if cfg.asserts then .error .assertion
  else if ys.length < xs.length then .error .ub
  else .ok (xs.zip ys)

theorem assertThat_true (cfg : Config) {c : Bool} (h : c = true) : assertThat cfg c = .ok () := by
  simp [assertThat, h]

theorem zipEqual_of_length {α β : Type} (cfg : Config) {xs : List α} {ys : List β}
    (h : xs.length = ys.length) : zipEqual cfg xs ys = .ok (xs.zip ys) := by
  rw [zipEqual, if_pos h]

theorem zipEqual_fst (cfg : Config) {α β : Type} {xs : List α} {ys : List β}
    {pairs : List (α × β)}
    (h : zipEqual cfg xs ys = .ok pairs) : pairs = xs.zip ys ∧ pairs.map Prod.fst = xs := by
  unfold zipEqual at h
  split at h
  · cases h
    exact ⟨rfl, List.map_fst_zip (by omega)⟩
  split at h
  · cases h
  split at h
  · cases h
  · cases h
    exact ⟨rfl, List.map_fst_zip (by omega)⟩

theorem zipEqual_eq {α β : Type} (cfg : Config) {xs : List α} {ys : List β}
    {pairs : List (α × β)} (h : zipEqual cfg xs ys = .ok pairs) : pairs = xs.zip ys :=
  (zipEqual_fst cfg h).1

/-- An element of a range, whose bounds nothing checks. -/
def indexed {α : Type} (xs : List α) (i : Nat) : Except Err α :=
  match xs[i]? with
  | some x => .ok x
  | none => .error .ub

theorem indexed_eq {α : Type} {xs : List α} {i : Nat} {x : α} (h : indexed xs i = .ok x) :
    xs[i]? = some x := by
  unfold indexed at h
  split at h
  · cases h
    assumption
  · cases h

theorem indexed_mem {α : Type} {xs : List α} {i : Nat} {x : α} (h : indexed xs i = .ok x) :
    x ∈ xs :=
  List.mem_of_getElem? (indexed_eq h)

def PrimValue.getIntValue : PrimValue → Except Err Int
  | .int c => .ok c.getValue.toInt
  | _ => .error (.runtime "GetIntValue on non-integer PrimValue")

def toShapeDim : SubExp → Except Err Int
  | .const c => c.getIntValue
  | .var _ => .ok kDynamic

def toShapeType (dims : List SubExp) : Except Err (List Int) := dims.mapM toShapeDim

def lowerPrimType : PrimType → Except Err ElemTy
  | .int t => .ok (.int t.getWidth)
  | .float t => .ok (.float t)
  | .bool => .ok (.int 1)
  | .unit => .error .undefined

/-- `LowerTypeArray` is the second case. -/
def lowerTy : Ty → Except Err MlirTy
  | .prim t => do
    let e ← lowerPrimType t
    return .scalar e
  | .array elem shape => do
    let s ← toShapeType shape
    let e ← lowerPrimType elem
    return .tensor s e
  | .acc => .error .undefined
  | .mem => .error .undefined

def getRankedType : MlirTy → Except Err (List Int × ElemTy)
  | .tensor shape e => .ok (shape, e)
  | .scalar _ => .error .undefined

/-- The integer attribute takes the low bits of the widened value. -/
def getPrimValueAttr : PrimValue → Except Err TypedAttr
  | .int c => .ok (.integer c.t.getWidth (c.getValue.setWidth c.t.getWidth))
  | .float c => .ok (.float c.getType c.getValue)
  | .bool b => .ok (.integer 1 (BitVec.ofBool b))
  | .unit => .error .undefined

theorem setWidth_getValue (c : IntValue) : c.getValue.setWidth c.t.getWidth = c.v := by
  obtain ⟨t, v⟩ := c
  have le : t.getWidth ≤ 64 := by cases t <;> decide
  ext i hi
  simp only [IntValue.getValue, BitVec.getElem_setWidth, BitVec.getLsbD_signExtend]
  have small : i < 64 := Nat.lt_of_lt_of_le hi le
  simp [small, hi]

instance : MonadLift (Except Err) Emit := ⟨Tracked.ofExcept⟩
instance : MonadLift (Except Err) Lower := ⟨fun x => Lower.ofEmit (Tracked.ofExcept x)⟩

theorem Emit.liftExcept_returns {α : Type} (x : Except Err α) :
    (liftM x : Emit α).Returns fun a => x = .ok a :=
  fun _ _ _ run => (Tracked.ofExcept_ok.mp run).1

theorem Lower.run_liftExcept {α : Type} (x : Except Err α) (b : Builder) :
    (liftM x : Lower α).run b = (x.map fun a => (a, b)).mapError Stop.thrown := by
  cases x <;> rfl

theorem Lower.liftExcept_ok {α : Type} {x : Except Err α} {b b' : Builder} {a : α} :
    (liftM x : Lower α).run b = .ok (a, b') ↔ x = .ok a ∧ b = b' := by
  rw [Lower.run_liftExcept]
  cases x <;> simp [Except.map, Except.mapError]

def lowerPrimValue (c : PrimValue) : Emit Value := do
  let attr ← getPrimValueAttr c
  Emit.createConstant (.scalar attr) (.scalar attr.elem)

def Ctx.lookup (ctx : Ctx) (name : VName) : Emit Value :=
  match ctx name with
  | some v => pure v
  | none => Tracked.throw (.unbound name)

def lowerSubExp (ctx : Ctx) : SubExp → Emit Value
  | .var x => ctx.lookup x
  | .const c => lowerPrimValue c

def lowerSubExps (ctx : Ctx) (ses : List SubExp) : Emit (List Value) := ses.mapM (lowerSubExp ctx)

def lookups (ctx : Ctx) (names : List VName) : Emit (List Value) := names.mapM ctx.lookup

theorem Ctx.lookup_ok {ctx : Ctx} {x : VName} {v : Value} {ip ip' : Insertion}
    (run : (ctx.lookup x).run ip = .ok (v, ip')) : ctx x = some v ∧ ip = ip' := by
  rw [Ctx.lookup] at run
  split at run
  · rename_i w hw
    obtain ⟨rfl, same⟩ := Tracked.pure_ok.mp run
    exact ⟨hw, same⟩
  · cases run

theorem lookups_ok {ctx : Ctx} {names : List VName} {vs : List Value} {ip ip' : Insertion}
    (run : (lookups ctx names).run ip = .ok (vs, ip')) :
    List.Forall₂ (fun x v => ctx x = some v) names vs ∧ ip = ip' := by
  unfold lookups at run
  induction names generalizing vs with
  | nil =>
    obtain ⟨rfl, same⟩ := Tracked.pure_ok.mp run
    exact ⟨.nil, same⟩
  | cons x names ih =>
    rw [List.mapM_cons] at run
    obtain ⟨v, ip₁, first, run⟩ := Tracked.bind_ok.mp run
    obtain ⟨bound, rfl⟩ := Ctx.lookup_ok first
    obtain ⟨rest, ip₂, later, run⟩ := Tracked.bind_ok.mp run
    obtain ⟨rfl, rfl⟩ := Tracked.pure_ok.mp run
    obtain ⟨bounds, rfl⟩ := ih later
    exact ⟨.cons bound bounds, rfl⟩

def constantIndex (n : Int) : Emit Value :=
  Emit.createConstant (.scalar (.index n)) .index

def indexCast (v : Value) (ty : MlirTy) : Emit Value := Emit.create1 .indexCast [v] ty

def tensorDim (v : Value) (i : Nat) : Emit Value := do
  let idx ← constantIndex i
  Emit.create1 .tensorDim [v, idx] .index

def tensorEmpty (ty : MlirTy) (dynamicSizes : List Value) : Emit Value :=
  Emit.create1 .tensorEmpty dynamicSizes ty

def tensorEmpties (tys : List MlirTy) (dynamicSizes : List Value) : Emit (List Value) :=
  tys.mapM fun ty => tensorEmpty ty dynamicSizes

/-- `tensor.extract`, whose result type is the element type of the tensor. -/
def tensorExtract (v : Value) (indices : List Value) : Emit Value := do
  match v.ty with
  | .tensor _ e => Emit.create1 .tensorExtract (v :: indices) (.scalar e)
  | .scalar _ => Emit.ub

/-- Casts `value` to `type` where they are compatible: a static dimension to a dynamic
one or back, a 0-D tensor to a scalar. -/
def castToType (value : Value) (type : MlirTy) : Emit Value :=
  if value.ty = type then pure value
  else if areCastCompatible value.ty type then Emit.create1 .tensorCast [value] type
  else match value.ty with
    | .tensor [] _ => if type.isIntOrFloat then tensorExtract value [] else Emit.undefined
    | _ => Emit.undefined

end FutharkMlir
