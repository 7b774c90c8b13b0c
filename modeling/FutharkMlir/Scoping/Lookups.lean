import FutharkMlir.Compiler.Exp
import FutharkMlir.Scoping.Names

/-! A lowering stops at an unbound name only where it looks one up: the operations of a
kernel's statements do not, if the names they use are bound. -/
namespace FutharkMlir

/-- A check that never fails with an unbound name. -/
class NoUnboundErr {α : Type} (x : Except Err α) : Prop where
  never : ∀ name, x ≠ .error (.unbound name)

/-- Code that never stops at an unbound name. -/
class NoUnbound {α : Type} (m : Emit α) : Prop where
  never : ∀ ip name, m.run ip ≠ .error (.unbound name)

section Rules

variable {α β : Type}

instance (a : α) : NoUnboundErr (.ok a : Except Err α) := ⟨fun _ h => by cases h⟩
instance (a : α) : NoUnboundErr (pure a : Except Err α) := ⟨fun _ h => by cases h⟩
instance : NoUnboundErr (.error .undefined : Except Err α) := ⟨fun _ h => by cases h⟩
instance (msg : String) : NoUnboundErr (.error (.runtime msg) : Except Err α) :=
  ⟨fun _ h => by cases h⟩
instance : NoUnboundErr (.error .assertion : Except Err α) := ⟨fun _ h => by cases h⟩
instance : NoUnboundErr (.error .ub : Except Err α) := ⟨fun _ h => by cases h⟩

theorem NoUnboundErr.bind {x : Except Err α} {f : α → Except Err β} (hx : NoUnboundErr x)
    (hf : ∀ a, NoUnboundErr (f a)) : NoUnboundErr (x >>= f) := by
  refine ⟨fun name h => ?_⟩
  cases x with
  | error e =>
    cases h
    exact hx.never name rfl
  | ok a => exact (hf a).never name h

instance (x : Except Err α) (f : α → Except Err β) [hx : NoUnboundErr x]
    [hf : ∀ a, NoUnboundErr (f a)] : NoUnboundErr (x >>= f) := hx.bind hf

instance (c : Prop) [Decidable c] (x y : Except Err α) [NoUnboundErr x] [NoUnboundErr y] :
    NoUnboundErr (if c then x else y) := by
  split <;> infer_instance

instance (f : α → Except Err β) [∀ a, NoUnboundErr (f a)] (xs : List α) :
    NoUnboundErr (xs.mapM f) := by
  induction xs with
  | nil => rw [List.mapM_nil]; infer_instance
  | cons x xs ih => rw [List.mapM_cons]; infer_instance

instance (f : β → α → Except Err β) [∀ b a, NoUnboundErr (f b a)] (init : β) (xs : List α) :
    NoUnboundErr (xs.foldlM f init) := by
  induction xs generalizing init with
  | nil => rw [List.foldlM_nil]; infer_instance
  | cons x xs ih => rw [List.foldlM_cons]; infer_instance

instance (a : α) : NoUnbound (pure a : Emit α) := ⟨fun _ _ h => by cases h⟩
instance : NoUnbound (Emit.undefined : Emit α) := ⟨fun _ _ h => by cases h⟩
instance : NoUnbound (Emit.ub : Emit α) := ⟨fun _ _ h => by cases h⟩
instance (msg : String) : NoUnbound (Tracked.throw (.runtime msg) : Emit α) :=
  ⟨fun _ _ h => by cases h⟩

instance (x : Except Err α) [hx : NoUnboundErr x] : NoUnbound (liftM x : Emit α) := by
  refine ⟨fun ip name h => ?_⟩
  cases x with
  | error e =>
    cases h
    exact hx.never name rfl
  | ok a => cases h

theorem NoUnbound.bind {m : Emit α} {f : α → Emit β} (hm : NoUnbound m)
    (hf : ∀ a, NoUnbound (f a)) : NoUnbound (m >>= f) := by
  refine ⟨fun ip name h => ?_⟩
  rw [Tracked.run_bind] at h
  cases run : m.run ip with
  | error e =>
    rw [run] at h
    cases h
    exact hm.never ip name run
  | ok p =>
    rw [run] at h
    exact (hf p.1).never p.2 name h

instance (m : Emit α) (f : α → Emit β) [hm : NoUnbound m] [hf : ∀ a, NoUnbound (f a)] :
    NoUnbound (m >>= f) := hm.bind hf

theorem NoUnbound.bindCheck {x : Except Err α} {f : α → Emit β} (hx : NoUnboundErr x)
    (hf : ∀ a, x = .ok a → NoUnbound (f a)) : NoUnbound ((liftM x : Emit α) >>= f) := by
  cases x with
  | error e =>
    refine ⟨fun ip name h => ?_⟩
    cases h
    exact hx.never name rfl
  | ok a => exact hf a rfl

instance (c : Prop) [Decidable c] (m n : Emit α) [NoUnbound m] [NoUnbound n] :
    NoUnbound (if c then m else n) := by
  split <;> infer_instance

theorem NoUnbound.mapM {f : α → Emit β} {xs : List α} (each : ∀ x ∈ xs, NoUnbound (f x)) :
    NoUnbound (xs.mapM f) := by
  induction xs with
  | nil => rw [List.mapM_nil]; infer_instance
  | cons x xs ih =>
    rw [List.forall_mem_cons] at each
    have first := each.1
    have rest := ih each.2
    rw [List.mapM_cons]
    infer_instance

instance (f : α → Emit β) [h : ∀ a, NoUnbound (f a)] (xs : List α) : NoUnbound (xs.mapM f) :=
  .mapM fun x _ => h x

instance (code : OpCode) (operands : List Value) (tys : List MlirTy) (regions : List Block) :
    NoUnbound (Emit.create code operands tys regions) := ⟨fun _ _ h => by cases h⟩

instance (code : OpCode) (operands : List Value) (ty : MlirTy) :
    NoUnbound (Emit.create1 code operands ty) := ⟨fun _ _ h => by cases h⟩

instance (attr : ConstAttr) (ty : MlirTy) : NoUnbound (Emit.createConstant attr ty) :=
  ⟨fun _ _ h => by cases h⟩

instance (argTys : List MlirTy) (body : List Value → Emit (List Value))
    [h : ∀ args, NoUnbound (body args)] : NoUnbound (Emit.inBlock argTys body) := by
  refine ⟨fun ip name stop => ?_⟩
  simp only [Emit.inBlock] at stop
  split at stop
  · cases stop
  · rename_i e run
    cases stop
    exact (h _).never _ name run

end Rules

section Checks

variable {α β : Type} (cfg : Config)

instance (c : Bool) : NoUnboundErr (assertThat cfg c) := by
  unfold assertThat
  infer_instance

instance (xs : List α) (ys : List β) : NoUnboundErr (zipEqual cfg xs ys) := by
  unfold zipEqual
  infer_instance

instance (xs : List α) (i : Nat) : NoUnboundErr (indexed xs i) := by
  unfold indexed
  split <;> infer_instance

instance (c : PrimValue) : NoUnboundErr c.getIntValue := by
  unfold PrimValue.getIntValue
  split <;> infer_instance

instance (d : SubExp) : NoUnboundErr (toShapeDim d) := by
  unfold toShapeDim
  split <;> infer_instance

instance (dims : List SubExp) : NoUnboundErr (toShapeType dims) := by
  unfold toShapeType
  infer_instance

instance (t : PrimType) : NoUnboundErr (lowerPrimType t) := by
  cases t <;> unfold lowerPrimType <;> infer_instance

instance (t : Ty) : NoUnboundErr (lowerTy t) := by
  cases t <;> unfold lowerTy <;> infer_instance

instance (t : MlirTy) : NoUnboundErr (getRankedType t) := by
  cases t <;> unfold getRankedType <;> infer_instance

instance (c : PrimValue) : NoUnboundErr (getPrimValueAttr c) := by
  cases c <;> unfold getPrimValueAttr <;> infer_instance

instance (ses : List SubExp) : NoUnboundErr (constantPrefix ses) := by
  induction ses with
  | nil => unfold constantPrefix; infer_instance
  | cons se ses ih => cases se <;> unfold constantPrefix <;> infer_instance

instance (se : SubExp) : NoUnboundErr (constantStride se) := by
  cases se <;> unfold constantStride <;> infer_instance

instance (a b : Int) : NoUnboundErr (desaturate a b) := by
  unfold desaturate
  infer_instance

instance (dim : Int) (shapes : List (List Int)) : NoUnboundErr (inferConcatShape dim shapes) := by
  cases shapes <;> unfold inferConcatShape <;> infer_instance

instance (args : List Value) (n i : Nat) : NoUnboundErr (getArg args n i) := by
  unfold getArg
  infer_instance

instance (attr : TypedAttr) : NoUnboundErr attr.toInt := by
  unfold TypedAttr.toInt
  split <;> infer_instance

instance (x : Value) : NoUnboundErr (getConstantIntTensor x) := by
  unfold getConstantIntTensor
  refine .bind inferInstance fun p => ?_
  dsimp only
  split
  · infer_instance
  · split <;> infer_instance

instance (x : Value) : NoUnboundErr (getConstantInt x) := by
  unfold getConstantInt
  split <;> infer_instance

instance (xs : List α) (i : Int) : NoUnboundErr (indexedInt xs i) := by
  unfold indexedInt
  infer_instance

instance (lhs rhs : List Int) (d : DotDims) : NoUnboundErr (dotGeneralShape lhs rhs d) := by
  unfold dotGeneralShape
  infer_instance

instance (lhs rhs : List Int) (g dim : Int) (d : DotDims) :
    NoUnboundErr (raggedDotShape lhs rhs g dim d) := by
  unfold raggedDotShape
  infer_instance

end Checks

section Values

variable (cfg : Config)

instance (n : Int) : NoUnbound (constantIndex n) := by
  unfold constantIndex
  infer_instance

instance (v : Value) (ty : MlirTy) : NoUnbound (indexCast v ty) := by
  unfold indexCast
  infer_instance

instance (v : Value) (i : Nat) : NoUnbound (tensorDim v i) := by
  unfold tensorDim
  infer_instance

instance (ty : MlirTy) (sizes : List Value) : NoUnbound (tensorEmpty ty sizes) := by
  unfold tensorEmpty
  infer_instance

instance (tys : List MlirTy) (sizes : List Value) : NoUnbound (tensorEmpties tys sizes) := by
  unfold tensorEmpties
  infer_instance

instance (v : Value) (indices : List Value) : NoUnbound (tensorExtract v indices) := by
  unfold tensorExtract
  split <;> infer_instance

instance (v : Value) (ty : MlirTy) : NoUnbound (castToType v ty) := by
  unfold castToType
  have other : NoUnbound (match v.ty with
      | .tensor [] _ => if ty.isIntOrFloat then tensorExtract v [] else Emit.undefined
      | _ => Emit.undefined) := by
    split <;> infer_instance
  infer_instance

instance (pairs : List (Value × MlirTy)) : NoUnbound (castAll pairs) := by
  unfold castAll
  infer_instance

instance (c : PrimValue) : NoUnbound (lowerPrimValue c) := by
  unfold lowerPrimValue
  infer_instance

instance (op : BinOp) (op0 op1 : Value) : NoUnbound (lowerBinOp cfg op op0 op1) := by
  cases op <;> unfold lowerBinOp <;> simp only [scalarArithOp, elementwiseOp, arithOp] <;>
    infer_instance

instance (op : CmpOp) (lhs rhs : Value) : NoUnbound (lowerCmpOp op lhs rhs) := by
  unfold lowerCmpOp cmpi cmpf
  split <;> infer_instance

instance (op : ConvOp) (v : Value) : NoUnbound (lowerConvOp op v) := by
  unfold lowerConvOp
  split <;> infer_instance

instance (n x s : Value) (elem : ElemTy) (dim : Int) : NoUnbound (createIota n x s elem dim) := by
  unfold createIota arithOp
  infer_instance

instance (v : Value) (i : Nat) (shape : List Int) : NoUnbound (dynamicDimSizes v i shape) := by
  induction shape generalizing i with
  | nil => unfold dynamicDimSizes; infer_instance
  | cons d shape ih => unfold dynamicDimSizes; infer_instance

instance (v : Value) : NoUnbound (replicatedValue v) := by
  unfold replicatedValue
  split <;> infer_instance

instance (v : Value) (ty : MlirTy) : NoUnbound (castUnlessEqual v ty) := by
  unfold castUnlessEqual
  infer_instance

end Values

section Calls

variable (cfg : Config) (args : List Value) (retTys : List MlirTy)

instance : NoUnbound (lowerMatMul cfg args retTys) := by
  unfold lowerMatMul
  repeat refine .bind inferInstance fun _ => ?_
  infer_instance

instance : NoUnbound (lowerDotGeneral cfg args retTys) := by
  unfold lowerDotGeneral
  repeat refine .bind inferInstance fun _ => ?_
  infer_instance

instance : NoUnbound (lowerRaggedDot cfg args retTys) := by
  unfold lowerRaggedDot
  repeat refine .bind inferInstance fun _ => ?_
  split
  split
  · infer_instance
  refine .bind inferInstance fun groups => ?_
  split
  split <;> infer_instance

instance : NoUnbound (lowerArgSort cfg args retTys) := by
  unfold lowerArgSort
  repeat refine .bind inferInstance fun _ => ?_
  dsimp only
  split <;> infer_instance

instance : NoUnbound (lowerScatter cfg args retTys) := by
  unfold lowerScatter
  repeat refine .bind inferInstance fun _ => ?_
  infer_instance

instance (b : BlackBox) : NoUnbound (lowerBlackBox cfg b args retTys) := by
  cases b <;> unfold lowerBlackBox <;> infer_instance

instance (op : MathOp) : NoUnbound (createMath op args) := by
  unfold createMath
  infer_instance

instance (fname : String) : NoUnbound (lowerIntrinsic fname args) := by
  unfold lowerIntrinsic
  split
  · split <;> infer_instance
  split
  · infer_instance
  split <;> infer_instance

end Calls

section Operations

variable (cfg : Config) {ctx : Ctx}

def Ctx.Binds (ctx : Ctx) (names : List VName) : Prop := ∀ x ∈ names, ctx x ≠ none

theorem Ctx.Binds.append {xs ys : List VName} :
    ctx.Binds (xs ++ ys) ↔ ctx.Binds xs ∧ ctx.Binds ys := by
  simp only [Ctx.Binds, List.mem_append, or_imp, forall_and]

theorem Ctx.Binds.flatMap {α : Type} {f : α → List VName} {as : List α}
    (h : ctx.Binds (as.flatMap f)) {a : α} (member : a ∈ as) : ctx.Binds (f a) :=
  fun x hx => h x (List.mem_flatMap.mpr ⟨a, member, hx⟩)

theorem lookup_noUnbound {x : VName} (bound : ctx x ≠ none) : NoUnbound (ctx.lookup x) := by
  unfold Ctx.lookup
  split
  · infer_instance
  · contradiction

theorem lowerSubExp_noUnbound {se : SubExp} (bound : ctx.Binds se.names) :
    NoUnbound (lowerSubExp ctx se) := by
  cases se with
  | const c => exact inferInstanceAs (NoUnbound (lowerPrimValue c))
  | var x => exact lookup_noUnbound (bound x List.mem_cons_self)

theorem lowerSubExps_noUnbound {ses : List SubExp} (bound : ctx.Binds (subExpNames ses)) :
    NoUnbound (lowerSubExps ctx ses) :=
  .mapM fun _ member => lowerSubExp_noUnbound (bound.flatMap member)

theorem lookups_noUnbound {names : List VName} (bound : ctx.Binds names) :
    NoUnbound (lookups ctx names) :=
  .mapM fun x member => lookup_noUnbound (bound x member)

theorem toIndex_noUnbound {se : SubExp} (bound : ctx.Binds se.names) :
    NoUnbound (toIndex ctx se) := by
  cases se with
  | const c => unfold toIndex; infer_instance
  | var x =>
    have found := lookup_noUnbound (bound x List.mem_cons_self)
    unfold toIndex
    infer_instance

theorem lowerIndex_noUnbound {arr : VName} {dims : List DimIndex}
    (bound : ctx.Binds (arr :: dims.flatMap DimIndex.names)) :
    NoUnbound (lowerIndex arr dims ctx) := by
  have array := lookup_noUnbound (bound arr List.mem_cons_self)
  have each : ∀ d ∈ dims, ctx.Binds d.names := fun d member =>
    Ctx.Binds.flatMap (fun x hx => bound x (List.mem_cons_of_mem _ hx)) member
  have fixed : NoUnbound (dims.mapM (lowerFixed ctx)) := .mapM fun d member => by
    cases d with
    | fix i =>
      have index := lowerSubExp_noUnbound (each _ member)
      unfold lowerFixed
      infer_instance
    | slice => exact inferInstanceAs (NoUnbound Emit.ub)
  have sliced : NoUnbound (dims.mapM (lowerSliceDim ctx)) := .mapM fun d member => by
    cases d with
    | fix i =>
      have index := toIndex_noUnbound (each _ member)
      unfold lowerSliceDim
      infer_instance
    | slice start length stride =>
      obtain ⟨both, _⟩ := Ctx.Binds.append.mp (each _ member)
      have start := toIndex_noUnbound (Ctx.Binds.append.mp both).1
      have length := toIndex_noUnbound (Ctx.Binds.append.mp both).2
      unfold lowerSliceDim
      infer_instance
  unfold lowerIndex
  refine .bind array fun tensor => ?_
  split
  · infer_instance
  refine .bind sliced fun slices => .bind inferInstance fun ranked => ?_
  infer_instance

theorem dynamicShapeSizes_noUnbound {pairs : List (SubExp × Int)}
    (bound : ctx.Binds (subExpNames (pairs.map Prod.fst))) :
    NoUnbound (dynamicShapeSizes ctx pairs) := by
  induction pairs with
  | nil => unfold dynamicShapeSizes; infer_instance
  | cons p pairs ih =>
    obtain ⟨d, t⟩ := p
    obtain ⟨first, rest⟩ := Ctx.Binds.append.mp bound
    have value := lowerSubExp_noUnbound first
    have sizes := ih rest
    unfold dynamicShapeSizes
    infer_instance

/-- The sizes of a shape are looked up where the shape says they are dynamic. -/
theorem shapeSizes_noUnbound {dims : List SubExp} {shape : List Int} {pairs : List (SubExp × Int)}
    (bound : ctx.Binds (subExpNames dims)) (zip : zipEqual cfg dims shape = .ok pairs) :
    NoUnbound (dynamicShapeSizes ctx pairs) :=
  dynamicShapeSizes_noUnbound (by rwa [(zipEqual_fst cfg zip).2])

theorem lowerBasicOp_noUnbound {op : BasicOp} (bound : ctx.Binds op.names) :
    NoUnbound (lowerBasicOp cfg op ctx) := by
  cases op with
  | subExp se => exact lowerSubExp_noUnbound bound
  | arrayLit values t =>
    have elements := lowerSubExps_noUnbound bound
    unfold lowerBasicOp lowerArrayLit
    refine .bind inferInstance fun ty => .bind inferInstance fun p => ?_
    dsimp only
    split
    · exact .bind inferInstance fun ranked => inferInstance
    · infer_instance
  | binOp op op0 op1 =>
    have left := lowerSubExp_noUnbound (Ctx.Binds.append.mp bound).1
    have right := lowerSubExp_noUnbound (Ctx.Binds.append.mp bound).2
    unfold lowerBasicOp
    infer_instance
  | cmpOp op op0 op1 =>
    have left := lowerSubExp_noUnbound (Ctx.Binds.append.mp bound).1
    have right := lowerSubExp_noUnbound (Ctx.Binds.append.mp bound).2
    unfold lowerBasicOp
    infer_instance
  | convOp op op0 =>
    have operand := lowerSubExp_noUnbound bound
    unfold lowerBasicOp
    infer_instance
  | index arr dims => exact lowerIndex_noUnbound bound
  | concat dim arrs total =>
    have operands := lookups_noUnbound (Ctx.Binds.append.mp bound).1
    unfold lowerBasicOp lowerConcat
    infer_instance
  | iota n x s t =>
    obtain ⟨both, step⟩ := Ctx.Binds.append.mp bound
    have count := lowerSubExp_noUnbound (Ctx.Binds.append.mp both).1
    have start := lowerSubExp_noUnbound (Ctx.Binds.append.mp both).2
    have step := lowerSubExp_noUnbound step
    unfold lowerBasicOp lowerIota
    infer_instance
  | replicate shape val =>
    obtain ⟨dims, value⟩ := Ctx.Binds.append.mp bound
    have value := lowerSubExp_noUnbound value
    unfold lowerBasicOp lowerReplicate
    refine .bind value fun op => ?_
    split
    · infer_instance
    refine .bind inferInstance fun extents => .bindCheck inferInstance fun pairs zip => ?_
    have sizes := shapeSizes_noUnbound cfg dims zip
    exact .bind sizes fun outer => .bind inferInstance fun inner => inferInstance
  | scratch type dims =>
    unfold lowerBasicOp lowerScratch
    refine .bind inferInstance fun elem => .bind inferInstance fun extents => ?_
    refine .bindCheck inferInstance fun pairs zip => ?_
    have sizes := shapeSizes_noUnbound cfg bound zip
    infer_instance
  | reshape op0 _ _ _ remainder =>
    have operand := lowerSubExp_noUnbound (Ctx.Binds.append.mp (Ctx.Binds.append.mp bound).1).1
    unfold lowerBasicOp lowerReshape
    refine .bind operand fun src => .bind inferInstance fun ranked => ?_
    refine .bind inferInstance fun shape => ?_
    split
    · infer_instance
    split
    · infer_instance
    · infer_instance
  | rearrange arr perm =>
    have operand := lookup_noUnbound (bound arr List.mem_cons_self)
    unfold lowerBasicOp lowerRearrange
    refine .bind operand fun op => .bind inferInstance fun ranked => ?_
    infer_instance
  | opaqueOp | arrayVal | unOp | assert | update | flatIndex | flatUpdate | manifest =>
    exact inferInstanceAs (NoUnbound Emit.undefined)

end Operations

end FutharkMlir
