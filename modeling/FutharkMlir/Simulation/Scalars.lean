import FutharkMlir.Simulation.Runs

namespace FutharkMlir

variable {F : Type}

def PVal.lower : PVal F → Scalar F
  | .int t v => .int t.getWidth v
  | .float t x => .float t x
  | .bool b => .ofBool b

def PVal.elemTy : PVal F → ElemTy
  | .int t _ => .int t.getWidth
  | .float t _ => .float t
  | .bool _ => .int 1

/-- The value stands for a primitive value or an array, and has its type. -/
def Represents (E : Env F) (v : Value) : FVal F → Prop
  | .prim p => E v = some (.scalar p.lower) ∧ v.ty = .scalar p.elemTy
  | .array a => ∃ t shape elem, E v = some (.tensor t) ∧ v.ty = .tensor shape elem ∧
      Fits shape t.shape ∧ t.shape = a.shape ∧
      ∀ p, InBounds a.shape p → t.get p = (a.get p).lower ∧ (a.get p).elemTy = elem

def Ctx.Represents (E : Env F) (ctx : Ctx) (ρ : Store F) : Prop :=
  ∀ x val, ρ x = some val → ∃ v, ctx x = some v ∧ FutharkMlir.Represents E v val

theorem Represents.mono {E E' : Env F} {v : Value} {val : FVal F} (h : Represents E v val)
    (sub : E.Sub E') : Represents E' v val := by
  cases val with
  | prim p => exact ⟨sub _ _ h.1, h.2⟩
  | array a =>
    obtain ⟨t, shape, elem, hv, rest⟩ := h
    exact ⟨t, shape, elem, sub _ _ hv, rest⟩

theorem Ctx.Represents.mono {E E' : Env F} {ctx : Ctx} {ρ : Store F} (h : ctx.Represents E ρ)
    (sub : E.Sub E') : ctx.Represents E' ρ := by
  intro x val hx
  obtain ⟨v, hv, rep⟩ := h x val hx
  exact ⟨v, hv, rep.mono sub⟩

theorem Represents.mapM {E : Env F} {vs : List Value} {ps : List (PVal F)}
    (h : List.Forall₂ (Represents E) vs (ps.map .prim)) :
    vs.mapM E = some (ps.map fun p => .scalar p.lower) := by
  rw [List.mapM_eq_some, List.forall₂_map_right_iff]
  rw [List.forall₂_map_right_iff] at h
  exact h.imp fun v p hv => hv.1

variable {W : World F} {point : List Nat} {E : Env F}

/-- Each element is lowered to something that stands for its image. -/
theorem Emit.Effects.mapM {α β γ : Type} {f : α → Emit β} {R : Env F → β → γ → Prop}
    (mono : ∀ E E' b y, Binding.Sub E E' → R E b y → R E' b y) {xs : List α} {ys : List γ}
    (h : List.Forall₂ (fun x y => ∀ E', E.Sub E' →
      Emit.Runs W point E' (f x) fun E'' b => R E'' b y) xs ys) :
    Emit.Runs W point E (xs.mapM f) fun E' bs => List.Forall₂ (R E') bs ys := by
  induction xs generalizing E ys with
  | nil =>
    cases h
    exact .pure ⟨rfl, .nil⟩
  | cons x xs ih =>
    cases h with
    | cons hx hxs =>
      rw [List.mapM_cons]
      refine .bind (hx E (.refl E)) fun b E₁ sub₁ hb => ?_
      refine .bind (ih (hxs.imp fun _ _ h E' sub => h E' (sub₁.trans sub)))
        fun bs E₂ sub₂ hbs => ?_
      exact .pure ⟨rfl, .cons (mono _ _ _ _ sub₂ hb) hbs⟩

section Constants

theorem lowerPrimValue_runs {c : PrimValue} {p : PVal F}
    (h : c.value W.machine.toFloatOps = some p) :
    Emit.Runs W point E (lowerPrimValue c) fun E' v => Represents E' v (.prim p) := by
  cases c with
  | int c =>
    cases h
    refine createConstant_runs.weaken fun E' ws v _ hv => ⟨hv.1, ?_⟩
    refine ⟨hv.2.1.trans ?_, hv.2.2⟩
    rw [TypedAttr.value, setWidth_getValue]
    rfl
  | float c =>
    cases h
    exact createConstant_runs
  | bool b =>
    cases h
    exact createConstant_runs
  | unit => cases h

theorem lookup_runs {ctx : Ctx} {ρ : Store F} (rep : ctx.Represents E ρ) {x : VName}
    {val : FVal F} (h : ρ x = some val) :
    Emit.Runs W point E (ctx.lookup x) fun E' v => E' = E ∧ Represents E v val := by
  obtain ⟨v, hv, stands⟩ := rep x val h
  unfold Ctx.lookup
  rw [hv]
  exact .pure ⟨rfl, rfl, stands⟩

theorem lowerSubExp_runs {ctx : Ctx} {ρ : Store F} (rep : ctx.Represents E ρ) {se : SubExp}
    {val : FVal F} (h : evalSubExp W.machine.toFloatOps ρ se = some val) :
    Emit.Runs W point E (lowerSubExp ctx se) fun E' v => Represents E' v val := by
  cases se with
  | const c =>
    obtain ⟨p, hp, rfl⟩ := Option.map_eq_some_iff.mp h
    exact lowerPrimValue_runs hp
  | var x => exact (lookup_runs rep h).weaken fun E' ws v _ hv => ⟨hv.1, hv.2.1 ▸ hv.2.2⟩

theorem lowerSubExps_runs {ctx : Ctx} {ρ : Store F} (rep : ctx.Represents E ρ)
    {ses : List SubExp} {vals : List (FVal F)}
    (h : ses.mapM (evalSubExp W.machine.toFloatOps ρ) = some vals) :
    Emit.Runs W point E (lowerSubExps ctx ses) fun E' vs =>
      List.Forall₂ (Represents E') vs vals := by
  refine Emit.Effects.mapM (fun _ _ _ _ sub h => h.mono sub) ?_
  exact (List.mapM_eq_some.mp h).imp fun se val hse E' sub => lowerSubExp_runs (rep.mono sub) hse

theorem lowerPrim_runs {ctx : Ctx} {ρ : Store F} (rep : ctx.Represents E ρ) {se : SubExp}
    {p : PVal F} (h : evalPrim W.machine.toFloatOps ρ se = some p) :
    Emit.Runs W point E (lowerSubExp ctx se) fun E' v => Represents E' v (.prim p) := by
  obtain ⟨val, hval, prim⟩ := Option.bind_eq_some_iff.mp h
  cases val with
  | prim q =>
    cases prim
    exact lowerSubExp_runs rep hval
  | array a => cases prim

end Constants

section Operators

variable (cfg : Config)

theorem scalarOp_runs {code : OpCode} {ty : MlirTy} {vs : List Value} {ps : List (PVal F)}
    {q : PVal F} (stands : List.Forall₂ (Represents E) vs (ps.map .prim))
    (eval : evalOp W.machine W.call point code vs (ps.map fun p => .scalar p.lower) [ty] [] =
      some ([.scalar q.lower], [])) (type : ty = .scalar q.elemTy) :
    Emit.Runs W point E (Emit.create1 code vs ty) fun E' v => Represents E' v (.prim q) :=
  (create1_runs (Represents.mapM stands) eval).weaken
    fun _ _ _ _ hv => ⟨hv.1, hv.2.1, hv.2.2.trans type⟩

theorem machineInt_eq {w : Nat} {fits : Bool} {n : Int} {c : BitVec w}
    (h : machineInt fits n = some c) : c = BitVec.ofInt w n ∧ (fits = true → c.toInt = n) := by
  unfold machineInt at h
  split at h
  · cases h
  · rename_i fit
    cases h
    refine ⟨rfl, fun eq => ?_⟩
    by_contra ne
    exact fit ⟨eq, ne⟩

/-- A quotient that fits is not that of the least integer by -1. -/
theorem signedQuotient_eq {t : IntType} {round : Int → Int → Int} {a b c : BitVec t.getWidth}
    (least : ∀ n : Int, round (-n) (-1) = n)
    (h : machineQuotient round a.toInt b.toInt = some c) :
    signedQuotient round a b = some c := by
  unfold machineQuotient at h
  split at h
  · cases h
  · rename_i nonzero
    obtain ⟨rfl, fits⟩ := machineInt_eq h
    unfold signedQuotient
    rw [if_neg]
    rintro (zero | ⟨rfl, minus⟩)
    · exact nonzero zero
    · have value := fits rfl
      rw [minus] at value
      have large : (BitVec.intMin t.getWidth).toInt = -(2 ^ (t.getWidth - 1)) := by
        cases t <;> decide
      rw [large, least] at value
      have bound := BitVec.toInt_lt (x := BitVec.ofInt t.getWidth (2 ^ (t.getWidth - 1)))
      rw [value] at bound
      cases t <;> simp [IntType.getWidth] at bound

theorem tdiv_least (n : Int) : Int.tdiv (-n) (-1) = n := by simp

theorem ceilQuotient_least (n : Int) : ceilQuotient (-n) (-1) = n := by
  rw [ceilQuotient, Int.neg_neg, Int.fdiv_eq_ediv_of_dvd (by simp)]
  simp

/-- What an integer operator means is what its `arith` operation computes. -/
theorem intBinOp_arith {t : IntType} {f : Int → Int → Option (BitVec t.getWidth)} {op : ArithOp}
    {x y z : PVal F} (h : intBinOp t f x y = some z)
    (agree : ∀ a b c, f a.toInt b.toInt = some c → arithInt op a b = some c) :
    arithScalar W.machine.toFloatOps op x.lower y.lower = some z.lower ∧ x.elemTy = z.elemTy := by
  simp only [intBinOp, Option.bind_eq_bind, Option.bind_eq_some_iff, Option.pure_def,
    Option.some.injEq] at h
  obtain ⟨a, ha, b, hb, c, hc, rfl⟩ := h
  rw [PVal.asInt_eq_some] at ha hb
  subst ha hb
  refine ⟨?_, rfl⟩
  simp [PVal.lower, arithScalar, agree a b c hc]

theorem floatBinOp_arith {t : FloatType} {f : F → F → F} {op : ArithOp} {x y z : PVal F}
    (h : floatBinOp t f x y = some z)
    (agree : ∀ a b, arithFloat W.machine.toFloatOps op t a b = some (f a b)) :
    arithScalar W.machine.toFloatOps op x.lower y.lower = some z.lower ∧ x.elemTy = z.elemTy := by
  simp only [floatBinOp, Option.bind_eq_bind, Option.bind_eq_some_iff, Option.pure_def,
    Option.some.injEq] at h
  obtain ⟨a, ha, b, hb, rfl⟩ := h
  rw [PVal.asFloat_eq_some] at ha hb
  subst ha hb
  refine ⟨?_, rfl⟩
  simp [PVal.lower, arithScalar, agree]

theorem evalOp_arith {op : ArithOp} {vs : List Value} {a b s : Scalar F} {ty : MlirTy}
    (h : arithScalar W.machine.toFloatOps op a b = some s) :
    evalOp W.machine W.call point (.arith op) vs [.scalar a, .scalar b] [ty] [] =
      some ([.scalar s], []) := by
  simp [evalOp, evalTensorOp, evalScalarOp, MVal.toScalar, h]

/-- The binary operators that become one `arith` operation. -/
def BinOp.arith : BinOp → Option ArithOp
  | .add _ _ => some .addi
  | .mul _ _ => some .muli
  | .sub _ _ => some .subi
  | .squot _ => some .divsi
  | .sdivUp _ => some .ceildivsi
  | .fadd _ => some .addf
  | .fmul _ => some .mulf
  | .fsub _ => some .subf
  | .fdiv _ => some .divf
  | .fmax _ => some .maxnumf
  | _ => none

theorem evalBinOp_arith {op : BinOp} {x y z : PVal F}
    (h : evalBinOp W.machine.toFloatOps op x y = some z) {a : ArithOp} (lowered : op.arith = some a) :
    arithScalar W.machine.toFloatOps a x.lower y.lower = some z.lower ∧ x.elemTy = z.elemTy := by
  cases op <;> cases lowered
  case add t ovf =>
    refine intBinOp_arith (f := fun a b => machineInt ovf.fits (a + b)) h fun a b c hc => ?_
    rw [(machineInt_eq hc).1, BitVec.ofInt_add, BitVec.ofInt_toInt, BitVec.ofInt_toInt]
    rfl
  case sub t ovf =>
    refine intBinOp_arith (f := fun a b => machineInt ovf.fits (a - b)) h fun a b c hc => ?_
    rw [(machineInt_eq hc).1, Int.sub_eq_add_neg, BitVec.ofInt_add, BitVec.ofInt_neg,
      BitVec.ofInt_toInt, BitVec.ofInt_toInt, ← BitVec.sub_eq_add_neg]
    rfl
  case mul t ovf =>
    refine intBinOp_arith (f := fun a b => machineInt ovf.fits (a * b)) h fun a b c hc => ?_
    rw [(machineInt_eq hc).1, BitVec.ofInt_mul, BitVec.ofInt_toInt, BitVec.ofInt_toInt]
    rfl
  case squot t => exact intBinOp_arith h fun a b c hc => signedQuotient_eq tdiv_least hc
  case sdivUp t => exact intBinOp_arith h fun a b c hc => signedQuotient_eq ceilQuotient_least hc
  all_goals exact floatBinOp_arith h fun _ _ => rfl

/-- On scalars, an operator with an `arith` operation is lowered to it. -/
theorem lowerBinOp_arith {op : BinOp} {a : ArithOp} (lowered : op.arith = some a) {v w : Value}
    (scalar : v.ty.isTensor = false) : lowerBinOp cfg op v w = arithOp a v w := by
  cases op <;> cases lowered <;>
    simp [lowerBinOp, scalarArithOp, assertThat, scalar] <;> rfl

theorem lowerBinOp_runs {op : BinOp} {x y z : PVal F} {v w : Value}
    (hv : Represents E v (.prim x)) (hw : Represents E w (.prim y))
    (h : evalBinOp W.machine.toFloatOps op x y = some z) :
    Emit.Runs W point E (lowerBinOp cfg op v w) fun E' u => Represents E' u (.prim z) := by
  have scalar : v.ty.isTensor = false := by
    rw [hv.2]
    rfl
  have stands : List.Forall₂ (Represents E) [v, w] ([x, y].map .prim) := .cons hv (.cons hw .nil)
  cases lowered : op.arith with
  | some a =>
    rw [lowerBinOp_arith cfg lowered scalar]
    obtain ⟨eval, type⟩ := evalBinOp_arith h lowered
    exact scalarOp_runs stands (evalOp_arith eval) (hv.2.trans (by rw [type]))
  | none =>
    cases op with
    | fpow t =>
      simp only [evalBinOp, floatBinOp, Option.bind_eq_bind, Option.bind_eq_some_iff,
        Option.pure_def, Option.some.injEq] at h
      obtain ⟨a, ha, b, hb, rfl⟩ := h
      rw [PVal.asFloat_eq_some] at ha hb
      subst ha hb
      refine .bind (.liftExcept _) fun _ E' sub heq => ?_
      refine scalarOp_runs (stands.imp fun _ _ h => h.mono sub) ?_ hv.2
      simp [evalOp, evalTensorOp, evalScalarOp, MVal.toScalar, PVal.lower]
    | _ => first | (cases lowered; done) | cases h

theorem intCmpOp_runs {t : IntType} {f : BitVec t.getWidth → BitVec t.getWidth → Bool}
    {p : CmpIPredicate} {x y z : PVal F} {v w : Value} (hv : Represents E v (.prim x))
    (hw : Represents E w (.prim y)) (h : intCmpOp t f x y = some z)
    (agree : ∀ a b, p.holds a b = f a b) :
    Emit.Runs W point E (cmpi p v w) fun E' u => Represents E' u (.prim z) := by
  simp only [intCmpOp, Option.bind_eq_bind, Option.bind_eq_some_iff, Option.pure_def,
    Option.some.injEq] at h
  obtain ⟨a, ha, b, hb, rfl⟩ := h
  rw [PVal.asInt_eq_some] at ha hb
  subst ha hb
  have stands : List.Forall₂ (Represents E) [v, w] ([.int t a, .int t b].map .prim) :=
    .cons hv (.cons hw .nil)
  refine scalarOp_runs stands ?_ (by rw [hv.2]; rfl)
  simp [evalOp, evalTensorOp, evalScalarOp, MVal.toScalar, PVal.lower, compareInt, agree]

theorem floatCmpOp_runs {t : FloatType} {f : F → F → Bool} {p : CmpFPredicate} {x y z : PVal F}
    {v w : Value} (hv : Represents E v (.prim x)) (hw : Represents E w (.prim y))
    (h : floatCmpOp t f x y = some z) (agree : p.holds W.machine.toFloatOps = f) :
    Emit.Runs W point E (cmpf p v w) fun E' u => Represents E' u (.prim z) := by
  simp only [floatCmpOp, Option.bind_eq_bind, Option.bind_eq_some_iff, Option.pure_def,
    Option.some.injEq] at h
  obtain ⟨a, ha, b, hb, rfl⟩ := h
  rw [PVal.asFloat_eq_some] at ha hb
  subst ha hb
  have stands : List.Forall₂ (Represents E) [v, w] ([.float t a, .float t b].map .prim) :=
    .cons hv (.cons hw .nil)
  refine scalarOp_runs stands ?_ (by rw [hv.2]; rfl)
  simp [evalOp, evalTensorOp, evalScalarOp, MVal.toScalar, PVal.lower, compareFloat, agree]

theorem lowerCmpOp_runs {op : CmpOp} {x y z : PVal F} {v w : Value}
    (hv : Represents E v (.prim x)) (hw : Represents E w (.prim y))
    (h : evalCmpOp W.machine.toFloatOps op x y = some z) :
    Emit.Runs W point E (lowerCmpOp op v w) fun E' u => Represents E' u (.prim z) := by
  cases op with
  | eq t =>
    cases t with
    | int t => exact intCmpOp_runs hv hw h fun _ _ => rfl
    | float t => exact floatCmpOp_runs hv hw h rfl
    | bool => cases h
    | unit => cases h
  | slt t => exact intCmpOp_runs hv hw h fun _ _ => rfl
  | sle t => exact intCmpOp_runs hv hw h fun _ _ => rfl
  | ult t => exact intCmpOp_runs hv hw h fun _ _ => rfl
  | ule t => exact intCmpOp_runs hv hw h fun _ _ => rfl
  | flt t => exact floatCmpOp_runs hv hw h rfl
  | fle t => exact floatCmpOp_runs hv hw h rfl
  | llt => cases h
  | lle => cases h

/-- An integer is extended to a wider type. -/
def ConvOp.widens : ConvOp → Bool
  | .zext src dst => src.getWidth < dst.getWidth
  | .sext src dst => src.getWidth < dst.getWidth
  | _ => true

theorem lowerConvOp_runs {op : ConvOp} (widens : op.widens = true) {x z : PVal F} {v : Value}
    (hv : Represents E v (.prim x)) (h : evalConvOp W.machine.toFloatOps op x = some z) :
    Emit.Runs W point E (lowerConvOp op v) fun E' u => Represents E' u (.prim z) := by
  have stands : List.Forall₂ (Represents E) [v] ([x].map .prim) := .cons hv .nil
  cases op with
  | zext src dst =>
    simp only [evalConvOp, Option.bind_eq_bind, Option.bind_eq_some_iff, Option.pure_def,
      Option.some.injEq] at h
    obtain ⟨a, ha, rfl⟩ := h
    rw [PVal.asInt_eq_some] at ha
    subst ha
    have wider : src.getWidth < dst.getWidth := of_decide_eq_true widens
    refine scalarOp_runs stands ?_ rfl
    simp [evalOp, evalTensorOp, evalScalarOp, MVal.toScalar, PVal.lower, wider]
  | sext src dst =>
    simp only [evalConvOp, Option.bind_eq_bind, Option.bind_eq_some_iff, Option.pure_def,
      Option.some.injEq] at h
    obtain ⟨a, ha, rfl⟩ := h
    rw [PVal.asInt_eq_some] at ha
    subst ha
    have wider : src.getWidth < dst.getWidth := of_decide_eq_true widens
    refine scalarOp_runs stands ?_ rfl
    simp [evalOp, evalTensorOp, evalScalarOp, MVal.toScalar, PVal.lower, wider]
  | sitofp src dst =>
    simp only [evalConvOp, Option.bind_eq_bind, Option.bind_eq_some_iff, Option.pure_def,
      Option.some.injEq] at h
    obtain ⟨a, ha, rfl⟩ := h
    rw [PVal.asInt_eq_some] at ha
    subst ha
    refine scalarOp_runs stands ?_ rfl
    simp [evalOp, evalTensorOp, evalScalarOp, MVal.toScalar, PVal.lower]
  | _ => cases h

end Operators

section Loads

theorem signExtend_index {w : Nat} (le : w ≤ 64) {a : BitVec w} (h : a.msb = false) :
    (a.signExtend 64).msb = false ∧ (a.signExtend 64).toNat = a.toNat := by
  have toInt : (a.signExtend 64).toInt = a.toInt := BitVec.toInt_signExtend_of_le le
  have nonneg : 0 ≤ a.toInt := by rw [BitVec.toInt_eq_toNat_of_msb h]; omega
  have msb : (a.signExtend 64).msb = false := by
    rw [BitVec.msb_eq_toInt, toInt]
    exact decide_eq_false (not_lt.mpr nonneg)
  refine ⟨msb, ?_⟩
  have both := toInt
  rw [BitVec.toInt_eq_toNat_of_msb msb, BitVec.toInt_eq_toNat_of_msb h] at both
  exact Int.ofNat_inj.mp both

def IsIndex (E : Env F) (v : Value) (n : Nat) : Prop :=
  ∃ x, E v = some x ∧ x.toIndex = some n

theorem IsIndex.mono {E E' : Env F} {v : Value} {n : Nat} (h : IsIndex E v n)
    (sub : E.Sub E') : IsIndex E' v n := by
  obtain ⟨x, hx, hn⟩ := h
  exact ⟨x, sub _ _ hx, hn⟩

theorem IsIndex.mapM {E : Env F} {vs : List Value} {ns : List Nat}
    (h : List.Forall₂ (IsIndex E) vs ns) :
    ∃ xs, vs.mapM E = some xs ∧ xs.mapM MVal.toIndex = some ns := by
  induction h with
  | nil => exact ⟨[], rfl, rfl⟩
  | cons hv _ ih =>
    obtain ⟨x, hx, hn⟩ := hv
    obtain ⟨xs, hxs, hns⟩ := ih
    exact ⟨x :: xs, by simp [hx, hxs], by simp [hn, hns]⟩

theorem indexCast_int_runs {v : Value} {t : IntType} {a : BitVec t.getWidth}
    (hv : Represents E v (.prim (.int t a))) :
    Emit.Runs W point E (indexCast v .index) fun E' u =>
      E' u = some (.scalar (.index (a.signExtend 64))) ∧ u.ty = .index := by
  have stands : List.Forall₂ (Represents E) [v] ([.int t a].map .prim) := .cons hv .nil
  refine create1_runs (Represents.mapM stands) ?_
  simp [evalOp, evalTensorOp, evalScalarOp, MVal.toScalar, PVal.lower, castIndex]

theorem indexCast_runs {v : Value} {p : PVal F} {n : Nat} (hv : Represents E v (.prim p))
    (position : p.toIndex = some n) :
    Emit.Runs W point E (indexCast v .index) fun E' u => IsIndex E' u n ∧ u.ty = .index := by
  cases p with
  | int t a =>
    rw [PVal.toIndex] at position
    split at position
    · cases position
    · rename_i nonneg
      cases position
      have le : t.getWidth ≤ 64 := by cases t <;> decide
      obtain ⟨msb, toNat⟩ := signExtend_index le (Bool.eq_false_iff.mpr nonneg)
      refine (indexCast_int_runs hv).weaken fun E' ws u _ hu => ⟨hu.1, ⟨_, hu.2.1, ?_⟩, hu.2.2⟩
      simp [MVal.toIndex, msb, toNat]
  | float t x => cases position
  | bool b => cases position

theorem lowerFixed_runs {ctx : Ctx} {ρ : Store F} (rep : ctx.Represents E ρ) {d : DimIndex}
    {n : Nat} (h : evalPosition W.machine.toFloatOps ρ d = some n) :
    Emit.Runs W point E (lowerFixed ctx d) fun E' u => IsIndex E' u n := by
  cases d with
  | fix i =>
    obtain ⟨p, hp, position⟩ := Option.bind_eq_some_iff.mp h
    refine .bind (lowerPrim_runs rep hp) fun v E₁ _ hv => ?_
    exact (indexCast_runs hv position).weaken fun _ _ _ _ hu => ⟨hu.1, hu.2.1⟩
  | slice start length stride => cases h

theorem tensorExtract_runs {v : Value} {indices : List Value} {a : Tensor (PVal F)}
    {p : List Nat} (hv : Represents E v (.array a)) (hi : List.Forall₂ (IsIndex E) indices p)
    (inside : InBounds a.shape p) :
    Emit.Runs W point E (tensorExtract v indices) fun E' u =>
      Represents E' u (.prim (a.get p)) := by
  obtain ⟨t, shape, elem, value, type, _, same, elements⟩ := hv
  obtain ⟨xs, hxs, hns⟩ := IsIndex.mapM hi
  obtain ⟨get, elemTy⟩ := elements p inside
  unfold tensorExtract
  rw [type]
  have seen : (v :: indices).mapM E = some (.tensor t :: xs) := by simp [value, hxs]
  refine (create1_runs (x := .scalar (a.get p).lower) seen ?_).weaken
    fun E' ws u _ hu => ⟨hu.1, hu.2.1, by rw [hu.2.2, elemTy]⟩
  simp [evalOp, evalTensorOp, hns, same, inside, get]

theorem lowerIndex_runs {ctx : Ctx} {ρ : Store F} (rep : ctx.Represents E ρ) {arr : VName}
    {dims : List DimIndex} {z : PVal F}
    (h : evalIndex W.machine.toFloatOps ρ arr dims = some z) :
    Emit.Runs W point E (lowerIndex arr dims ctx) fun E' u => Represents E' u (.prim z) := by
  unfold evalIndex at h
  split at h
  · rename_i a bound
    obtain ⟨p, hp, rest⟩ := Option.bind_eq_some_iff.mp h
    split at rest
    · rename_i inside
      cases rest
      have positions := List.mapM_eq_some.mp hp
      have fixed : dims.any DimIndex.isSlice = false := by
        rw [List.any_eq_false]
        intro d hd
        obtain ⟨n, hn⟩ : ∃ n, evalPosition W.machine.toFloatOps ρ d = some n := by
          obtain ⟨i, lt, rfl⟩ := List.mem_iff_getElem.mp hd
          exact ⟨_, (List.forall₂_iff_get.mp positions).2 i lt (by
            rw [← (List.forall₂_iff_get.mp positions).1]; exact lt)⟩
        cases d with
        | fix i => simp [DimIndex.isSlice]
        | slice start length stride => cases hn
      unfold lowerIndex
      refine .bind (lookup_runs rep bound) fun v E₁ sub₁ hv => ?_
      obtain ⟨rfl, stands⟩ := hv
      rw [fixed]
      refine .bind (Emit.Effects.mapM (R := IsIndex) (fun _ _ _ _ sub h => h.mono sub)
        (positions.imp fun d n hd E' sub => lowerFixed_runs (rep.mono sub) hd))
        fun indices E₂ sub₂ hi => ?_
      exact tensorExtract_runs (stands.mono sub₂) hi inside
    · cases rest
  · cases h

end Loads

section BasicOps

variable (cfg : Config)

def BasicOp.widens : BasicOp → Bool
  | .convOp op _ => op.widens
  | _ => true

theorem lowerBasicOp_runs {ctx : Ctx} {ρ : Store F} (rep : ctx.Represents E ρ) {op : BasicOp}
    (widens : op.widens = true) {val : FVal F}
    (h : evalBasicOp W.machine.toFloatOps ρ op = some val) :
    Emit.Runs W point E (lowerBasicOp cfg op ctx) fun E' v => Represents E' v val := by
  cases op with
  | subExp se => exact lowerSubExp_runs rep h
  | binOp op a b =>
    simp only [evalBasicOp, Option.bind_eq_bind, Option.bind_eq_some_iff, Option.pure_def,
      Option.some.injEq] at h
    obtain ⟨x, hx, y, hy, z, hz, rfl⟩ := h
    refine .bind (lowerPrim_runs rep hx) fun v E₁ sub₁ hv => ?_
    refine .bind (lowerPrim_runs (rep.mono sub₁) hy) fun w E₂ sub₂ hw => ?_
    exact lowerBinOp_runs cfg (hv.mono sub₂) hw hz
  | cmpOp op a b =>
    simp only [evalBasicOp, Option.bind_eq_bind, Option.bind_eq_some_iff, Option.pure_def,
      Option.some.injEq] at h
    obtain ⟨x, hx, y, hy, z, hz, rfl⟩ := h
    refine .bind (lowerPrim_runs rep hx) fun v E₁ sub₁ hv => ?_
    refine .bind (lowerPrim_runs (rep.mono sub₁) hy) fun w E₂ sub₂ hw => ?_
    exact lowerCmpOp_runs (hv.mono sub₂) hw hz
  | convOp op a =>
    simp only [evalBasicOp, Option.bind_eq_bind, Option.bind_eq_some_iff, Option.pure_def,
      Option.some.injEq] at h
    obtain ⟨x, hx, z, hz, rfl⟩ := h
    exact .bind (lowerPrim_runs rep hx) fun v E₁ _ hv => lowerConvOp_runs widens hv hz
  | index arr dims =>
    obtain ⟨z, hz, rfl⟩ := Option.map_eq_some_iff.mp h
    exact lowerIndex_runs rep hz
  | _ => cases h

end BasicOps

section Examples

def numbers (n : Nat) : Tensor (PVal Unit) :=
  { shape := [n], get := fun p => .int .int64 (BitVec.ofNat 64 (linear [n] p)) }

def numbersEnv (n : Nat) : Env Unit := Binding.empty.insert (arrayValue [n]) (.tensor (countUp [n]))

def numbersCtx (n : Nat) : Ctx := Ctx.empty.insert "xs" (arrayValue [n])

def numbersStore (n : Nat) : Store Unit := Binding.empty.insert "xs" (.array (numbers n))

theorem numbers_represents (n : Nat) :
    (numbersCtx n).Represents (numbersEnv n) (numbersStore n) := by
  intro x val hx
  by_cases eq : x = "xs"
  · rw [eq, numbersStore, Binding.insert_self] at hx
    cases hx
    refine ⟨arrayValue [n], by rw [eq]; rfl, countUp [n], [n], .int 64, Binding.insert_self _ _ _,
      rfl, .cons (.inr rfl) .nil, rfl, fun p _ => ⟨rfl, rfl⟩⟩
  · rw [numbersStore, Binding.insert_of_ne _ _ eq] at hx
    cases hx

theorem numbers_below (n : Nat) : (numbersEnv n).Below 1 := by
  intro v x hx
  by_cases eq : v = arrayValue [n]
  · rw [eq]
    exact Nat.zero_lt_one
  · rw [numbersEnv, Binding.insert_of_ne _ _ eq] at hx
    cases hx

/-- The builder in which the array is the only value so far. -/
def afterArray : Builder := { ip := ⟨"f", 1, [], []⟩, functions := [], module := [] }

end Examples

end FutharkMlir
