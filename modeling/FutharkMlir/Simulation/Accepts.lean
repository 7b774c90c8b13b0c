import FutharkMlir.Simulation.Typing

namespace FutharkMlir

/-- The computation succeeds from everywhere, with such a result. -/
def Emit.Accepts {α : Type} (m : Emit α) (Q : α → Prop) : Prop :=
  ∀ ip, ∃ a ip', m.run ip = .ok (a, ip') ∧ Q a

def Lower.Accepts {α : Type} (m : Lower α) (Q : α → Prop) : Prop :=
  ∀ b, ∃ a b', m.run b = .ok (a, b') ∧ Q a

namespace Emit.Accepts

variable {α β γ : Type} {Q : α → Prop}

theorem pure {a : α} (h : Q a) : Emit.Accepts (Pure.pure a) Q := fun ip => ⟨a, ip, rfl, h⟩

theorem bind {m : Emit β} {f : β → Emit α} {P : β → Prop} (hm : m.Accepts P)
    (hf : ∀ a, P a → (f a).Accepts Q) : (m >>= f).Accepts Q := by
  intro ip
  obtain ⟨a, mid, first, holds⟩ := hm ip
  obtain ⟨c, ip', rest, holds'⟩ := hf a holds mid
  exact ⟨c, ip', Tracked.bind_ok.mpr ⟨a, mid, first, rest⟩, holds'⟩

theorem weaken {m : Emit α} {P : α → Prop} (hm : m.Accepts P) (h : ∀ a, P a → Q a) :
    m.Accepts Q := by
  intro ip
  obtain ⟨a, ip', run, holds⟩ := hm ip
  exact ⟨a, ip', run, h a holds⟩

theorem liftExcept {x : Except Err α} {a : α} (ok : x = .ok a) (h : Q a) :
    Emit.Accepts (liftM x : Emit α) Q := by
  subst ok
  exact .pure h

theorem bindExcept {x : Except Err β} {b : β} {f : β → Emit α} (ok : x = .ok b)
    (h : (f b).Accepts Q) : ((liftM x : Emit β) >>= f).Accepts Q := by
  subst ok
  exact h

theorem create1 {code : OpCode} {operands : List Value} {ty : MlirTy} :
    Emit.Accepts (Emit.create1 code operands ty) fun v => v.ty = ty :=
  fun _ => ⟨_, _, rfl, rfl⟩

theorem createConstant {attr : ConstAttr} {ty : MlirTy} :
    Emit.Accepts (Emit.createConstant attr ty) fun v => v.ty = ty :=
  fun _ => ⟨_, _, rfl, rfl⟩

theorem create {code : OpCode} {operands : List Value} {resTys : List MlirTy}
    {regions : List Block} :
    Emit.Accepts (Emit.create code operands resTys regions) fun vs => vs.map Value.ty = resTys :=
  fun _ => ⟨_, _, rfl, freshValues_types _ _ _⟩

theorem mapM {f : α → Emit β} {R : β → γ → Prop} {xs : List α} {ys : List γ}
    (h : List.Forall₂ (fun x y => (f x).Accepts fun b => R b y) xs ys) :
    Emit.Accepts (xs.mapM f) fun bs => List.Forall₂ R bs ys := by
  induction h with
  | nil => exact .pure .nil
  | cons hx _ ih =>
    rw [List.mapM_cons]
    exact .bind hx fun b hb => .bind ih fun bs hbs => .pure (.cons hb hbs)

end Emit.Accepts

namespace Lower.Accepts

variable {α β : Type} {Q : α → Prop}

theorem pure {a : α} (h : Q a) : Lower.Accepts (Pure.pure a) Q := fun b => ⟨a, b, rfl, h⟩

theorem bind {m : Lower β} {f : β → Lower α} {P : β → Prop} (hm : m.Accepts P)
    (hf : ∀ a, P a → (f a).Accepts Q) : (m >>= f).Accepts Q := by
  intro b
  obtain ⟨a, mid, first, holds⟩ := hm b
  obtain ⟨c, b', rest, holds'⟩ := hf a holds mid
  exact ⟨c, b', Tracked.bind_ok.mpr ⟨a, mid, first, rest⟩, holds'⟩

theorem weaken {m : Lower α} {P : α → Prop} (hm : m.Accepts P) (h : ∀ a, P a → Q a) :
    m.Accepts Q := by
  intro b
  obtain ⟨a, b', run, holds⟩ := hm b
  exact ⟨a, b', run, h a holds⟩

theorem lift {m : Emit α} (hm : m.Accepts Q) : Lower.Accepts (Lower.ofEmit m) Q := by
  intro b
  obtain ⟨a, ip, run, holds⟩ := hm b.ip
  exact ⟨a, { b with ip }, by simp [Lower.ofEmit, run], holds⟩

theorem liftExcept {x : Except Err α} {a : α} (ok : x = .ok a) (h : Q a) :
    Lower.Accepts (liftM x : Lower α) Q :=
  lift (.liftExcept ok h)

theorem inBlock {argTys : List MlirTy} {body : List Value → Lower (List Value × α)}
    {P : List Value × α → Prop}
    (h : ∀ args, args.map Value.ty = argTys → (body args).Accepts P) :
    Lower.Accepts (Lower.inBlock argTys body) fun p => P (p.1.yield, p.2) := by
  intro b
  obtain ⟨⟨ys, a⟩, b', run, holds⟩ := h (freshValues b.ip.func b.ip.next argTys)
    (freshValues_types _ _ _)
    { b with ip := { b.ip with next := b.ip.next + argTys.length, ops := [] } }
  exact ⟨(.mk _ b'.ip.ops ys, a), _, by simp only [Lower.inBlock, run]; rfl, holds⟩

theorem recording {stm : Stm} {ctx : Ctx} {m : Lower (List Value × Ctx)}
    {Q : List Value × Ctx → Prop} (hm : m.Accepts Q) :
    (Lower.recording stm ctx m).Accepts Q := by
  intro b
  obtain ⟨p, b', run, holds⟩ := hm b
  exact ⟨p, _, by simp only [Lower.recording, run]; rfl, holds⟩

theorem returns {m : Lower α} {R : α → Prop} (hm : m.Accepts Q) (hr : m.Returns R) :
    m.Accepts fun a => Q a ∧ R a := by
  intro b
  obtain ⟨a, b', run, holds⟩ := hm b
  exact ⟨a, b', run, holds, hr b a b' run⟩

theorem of_run {m : Lower α} (h : m.Accepts Q) {b b' : Builder} {a : α}
    (run : m.run b = .ok (a, b')) : Q a := by
  obtain ⟨c, b'', run', holds⟩ := h b
  cases run.symm.trans run'
  exact holds

end Lower.Accepts

section Scalars

variable {Γ : Types} {ctx : Ctx}

theorem HasType.unique {v : Value} {t : PrimType} {e : ElemTy} (h : HasType v t)
    (lowered : lowerPrimType t = .ok e) : v.ty = .scalar e := by
  rw [HasType, lowerTy, lowered] at h
  exact (Except.ok.inj h).symm

theorem hasType_of {v : Value} {t : PrimType} {e : ElemTy} (lowered : lowerPrimType t = .ok e)
    (ty : v.ty = .scalar e) : HasType v t := by
  rw [HasType, lowerTy, lowered, ty]
  rfl

theorem Ty.scalar_eq {ty : Ty} {t : PrimType} (h : ty.scalar = some t) : ty = .prim t := by
  unfold Ty.scalar at h
  split at h <;> cases h
  rfl

theorem lowerSubExp_accepts (typed : ctx.Related HasTy Γ) {se : SubExp} {t : PrimType}
    (h : typeSubExp Γ se = some t) : (lowerSubExp ctx se).Accepts fun v => HasType v t := by
  cases se with
  | const c =>
    cases c with
    | unit => cases h
    | int c =>
      cases h
      exact Emit.Accepts.createConstant.weaken fun v hv => hasType_of rfl hv
    | float c =>
      cases h
      exact Emit.Accepts.createConstant.weaken fun v hv => hasType_of rfl hv
    | bool b =>
      cases h
      exact Emit.Accepts.createConstant.weaken fun v hv => hasType_of rfl hv
  | var x =>
    obtain ⟨ty, bound, scalar⟩ := Option.bind_eq_some_iff.mp h
    obtain ⟨v, hv, rel⟩ := typed x ty bound
    rw [Ty.scalar_eq scalar] at rel
    rw [lowerSubExp, Ctx.lookup, hv]
    exact .pure rel

theorem lowerSubExps_accepts (typed : ctx.Related HasTy Γ) {ses : List SubExp}
    {ts : List PrimType} (h : ses.mapM (typeSubExp Γ) = some ts) :
    (lowerSubExps ctx ses).Accepts fun vs => List.Forall₂ HasType vs ts :=
  .mapM ((List.mapM_eq_some.mp h).imp fun _ _ hse => lowerSubExp_accepts typed hse)

theorem castToType_accepts {v : Value} {ty : MlirTy} (h : v.ty = ty) :
    castToType v ty = pure v := by
  rw [castToType, if_pos h]

/-- Values cast to the types they have are left as they are. -/
theorem castAll_same {vs : List Value} {tys : List MlirTy} (h : vs.map Value.ty = tys) :
    castAll (vs.zip tys) = pure vs := by
  subst h
  induction vs with
  | nil => rfl
  | cons v vs ih =>
    rw [castAll, List.map_cons, List.zip_cons_cons, List.mapM_cons, castToType_accepts rfl]
    rw [castAll] at ih
    rw [pure_bind, ih, pure_bind]

variable (cfg : Config)

theorem lowerBinOp_accepts {op : BinOp} {t : PrimType} (h : op.type = some t) {v w : Value}
    (hv : HasType v t) : (lowerBinOp cfg op v w).Accepts fun u => HasType u t := by
  have keep : ∀ u : Value, u.ty = v.ty → HasType u t := fun u eq => by rw [HasType, eq, hv]
  have scalar : v.ty.isTensor = false := by
    cases op <;> cases h <;> rw [hv.unique rfl] <;> rfl
  cases op <;> cases h <;>
    simp only [lowerBinOp, scalarArithOp, arithOp, assertThat, scalar, Bool.false_eq_true, if_false,
      Bool.not_false, Bool.and_false, Bool.not_true] <;>
    exact Emit.Accepts.create1.weaken keep

theorem lowerCmpOp_accepts {op : CmpOp} {t : PrimType} (h : op.type = some t) {v w : Value}
    (hv : HasType v t) : (lowerCmpOp op v w).Accepts fun u => HasType u .bool := by
  have i1 : ∀ u : Value, u.ty = v.ty.i1SameShape → HasType u .bool := by
    intro u eq
    refine hasType_of rfl (eq.trans ?_)
    cases op with
    | eq t' =>
      cases t' <;> cases h <;> rw [hv.unique rfl] <;> rfl
    | _ => cases h <;> rw [hv.unique rfl] <;> rfl
  cases op with
  | eq t' =>
    cases t' <;> cases h <;> exact Emit.Accepts.create1.weaken i1
  | _ => cases h <;> exact Emit.Accepts.create1.weaken i1

theorem lowerConvOp_accepts {op : ConvOp} {t : PrimType × PrimType} (h : op.type = some t)
    (v : Value) : (lowerConvOp op v).Accepts fun u => HasType u t.2 := by
  cases op with
  | zext src dst =>
    obtain ⟨_, eq⟩ := Option.ite_none_right_eq_some.mp h
    cases eq
    exact Emit.Accepts.create1.weaken fun u hu => hasType_of rfl hu
  | sext src dst =>
    obtain ⟨_, eq⟩ := Option.ite_none_right_eq_some.mp h
    cases eq
    exact Emit.Accepts.create1.weaken fun u hu => hasType_of rfl hu
  | sitofp src dst =>
    cases h
    exact Emit.Accepts.create1.weaken fun u hu => hasType_of rfl hu
  | _ => cases h

theorem lowerFixed_accepts (typed : ctx.Related HasTy Γ) {d : DimIndex} {t : IntType}
    (h : typeFixed Γ d = some t) : (lowerFixed ctx d).Accepts fun _ => True := by
  cases d with
  | fix i =>
    simp only [typeFixed] at h
    split at h
    · rename_i t' ht
      exact .bind (lowerSubExp_accepts typed ht) fun v _ =>
        Emit.Accepts.create1.weaken fun _ _ => trivial
    · cases h
  | slice start length stride => cases h

theorem typeFixed_not_slice {dims : List DimIndex} {ts : List IntType}
    (h : dims.mapM (typeFixed Γ) = some ts) : dims.any DimIndex.isSlice = false := by
  rw [List.mapM_eq_some] at h
  induction h with
  | nil => rfl
  | @cons d t dims ts hd _ ih =>
    rw [List.any_cons, ih, Bool.or_false]
    cases d with
    | fix i => rfl
    | slice start length stride => cases hd

theorem lowerIndex_accepts (typed : ctx.Related HasTy Γ) {arr : VName} {dims : List DimIndex}
    {t : PrimType} (h : typeBasicOp Γ (.index arr dims) = some t) :
    (lowerIndex arr dims ctx).Accepts fun v => HasType v t := by
  simp only [typeBasicOp, Option.bind_eq_bind, Option.bind_eq_some_iff] at h
  obtain ⟨ts, fixed, h⟩ := h
  split at h
  · rename_i elem shape bound
    obtain ⟨_, scalar⟩ := Option.ite_none_right_eq_some.mp h
    obtain ⟨v, hv, s, e, ty, lowered, _⟩ := typed arr _ bound
    cases Ty.scalar_eq scalar
    unfold lowerIndex Ctx.lookup
    rw [hv, typeFixed_not_slice fixed]
    refine .bind (.pure (Q := (· = v)) rfl) fun w eq => ?_
    subst eq
    refine .bind (P := fun _ => True) ?_ fun indices _ => ?_
    · exact (Emit.Accepts.mapM (R := fun _ _ => True) ((List.mapM_eq_some.mp fixed).imp
        fun _ _ hd => lowerFixed_accepts typed hd)).weaken fun _ _ => trivial
    · unfold tensorExtract
      rw [ty]
      exact Emit.Accepts.create1.weaken fun u hu => hasType_of lowered hu
  · cases h

theorem lowerBasicOp_accepts (typed : ctx.Related HasTy Γ) {op : BasicOp} {t : PrimType}
    (h : typeBasicOp Γ op = some t) : (lowerBasicOp cfg op ctx).Accepts fun v => HasType v t := by
  cases op with
  | subExp se => exact lowerSubExp_accepts typed h
  | binOp op a b =>
    simp only [typeBasicOp, Option.bind_eq_bind, Option.bind_eq_some_iff] at h
    obtain ⟨t', ht, h⟩ := h
    obtain ⟨⟨ha, hb⟩, eq⟩ := Option.ite_none_right_eq_some.mp h
    cases eq
    exact .bind (lowerSubExp_accepts typed ha) fun v hv =>
      .bind (lowerSubExp_accepts typed hb) fun w _ => lowerBinOp_accepts cfg ht hv
  | cmpOp op a b =>
    simp only [typeBasicOp, Option.bind_eq_bind, Option.bind_eq_some_iff] at h
    obtain ⟨t', ht, h⟩ := h
    obtain ⟨⟨ha, hb⟩, eq⟩ := Option.ite_none_right_eq_some.mp h
    cases eq
    exact .bind (lowerSubExp_accepts typed ha) fun v hv =>
      .bind (lowerSubExp_accepts typed hb) fun w _ => lowerCmpOp_accepts ht hv
  | convOp op a =>
    simp only [typeBasicOp, Option.bind_eq_bind, Option.bind_eq_some_iff] at h
    obtain ⟨t', ht, h⟩ := h
    obtain ⟨ha, eq⟩ := Option.ite_none_right_eq_some.mp h
    cases eq
    exact .bind (lowerSubExp_accepts typed ha) fun v _ => lowerConvOp_accepts ht v
  | index arr dims => exact lowerIndex_accepts typed h
  | _ => cases h

end Scalars

variable {cfg : Config} {prog : Prog} {Γ Γ' : Types} {ctx : Ctx}

theorem lowerTy_scalar {ty : Ty} {t : PrimType} (h : ty.scalar = some t) :
    ∃ e, lowerPrimType t = .ok e ∧ lowerTy ty = .ok (.scalar e) := by
  have eq := Ty.scalar_eq h
  subst eq
  cases t with
  | unit => cases h
  | int t => exact ⟨_, rfl, rfl⟩
  | float t => exact ⟨_, rfl, rfl⟩
  | bool => exact ⟨_, rfl, rfl⟩

def LowersTo (tys : List MlirTy) (ts : List PrimType) : Prop :=
  List.Forall₂ (fun ty t => lowerTy (.prim t) = .ok ty) tys ts

theorem HasType.all {vs : List Value} {ts : List PrimType} :
    List.Forall₂ HasType vs ts ↔ LowersTo (vs.map Value.ty) ts := by
  rw [LowersTo, List.forall₂_map_left_iff]
  rfl

theorem LowersTo.unique {tys tys' : List MlirTy} {ts : List PrimType} (h : LowersTo tys ts)
    (h' : LowersTo tys' ts) : tys = tys' := by
  induction h generalizing tys' with
  | nil =>
    cases h'
    rfl
  | cons hx _ ih =>
    cases h' with
    | cons hy hys =>
      rw [ih hys, Except.ok.inj (hx.symm.trans hy)]

theorem lowersTo_of_scalars {tys : List Ty} {ts : List PrimType}
    (h : tys.mapM Ty.scalar = some ts) :
    ∃ mlir, tys.mapM lowerTy = .ok mlir ∧ LowersTo mlir ts := by
  rw [List.mapM_eq_some] at h
  induction h with
  | nil => exact ⟨[], rfl, .nil⟩
  | @cons ty t tys ts hty _ ih =>
    obtain ⟨mlir, hm, lowers⟩ := ih
    obtain ⟨e, _, eq⟩ := lowerTy_scalar hty
    have same := Ty.scalar_eq hty
    subst same
    refine ⟨.scalar e :: mlir, ?_, .cons eq lowers⟩
    rw [List.mapM_cons, eq, hm]
    rfl

/-- A function that takes and returns scalars has a signature of scalars. -/
theorem scalarSig_lowers {fname : String} {sig : List PrimType × List PrimType}
    (h : scalarSig prog fname = some sig) : ∃ f func, findFunction prog fname = some f ∧
      f.lowered = true ∧ funcSig f = .ok func ∧ LowersTo func.argTypes sig.1 ∧
      LowersTo func.retTypes sig.2 := by
  unfold scalarSig at h
  obtain ⟨f, found, h⟩ := Option.bind_eq_some_iff.mp h
  obtain ⟨lowered, h⟩ := Option.ite_none_right_eq_some.mp h
  obtain ⟨params, hp, h⟩ := Option.bind_eq_some_iff.mp h
  obtain ⟨results, hr, h⟩ := Option.bind_eq_some_iff.mp h
  cases h
  obtain ⟨args, ha, lowersArgs⟩ := lowersTo_of_scalars hp
  obtain ⟨rets, hrets, lowersRets⟩ := lowersTo_of_scalars hr
  refine ⟨f, ⟨f.name, args, rets⟩, found, lowered, ?_, lowersArgs, lowersRets⟩
  rw [funcSig, hrets, ha]
  rfl

theorem calleeOf_accepts {f : FunDef} (lowered : f.lowered = true) {sig : FuncSig}
    (h : funcSig f = .ok sig) : (calleeOf f).Accepts fun c => c = .func sig := by
  intro b
  refine ⟨.func sig, b, ?_, rfl⟩
  rw [calleeOf, FunDef.lowered_iff.mp lowered, h]
  rfl

theorem lowerCallArgs_accepts (typed : ctx.Related HasTy Γ) {args : List SubExp}
    {ts : List PrimType} {tys : List MlirTy} (h : args.mapM (typeSubExp Γ) = some ts)
    (lowers : LowersTo tys ts) :
    (lowerCallArgs ctx (args.zip tys)).Accepts fun vs => List.Forall₂ HasType vs ts := by
  rw [List.mapM_eq_some] at h
  unfold lowerCallArgs
  induction h generalizing tys with
  | nil =>
    cases lowers
    exact .pure .nil
  | cons hx _ ih =>
    cases lowers with
    | cons hy hys =>
      rw [List.zip_cons_cons, List.mapM_cons]
      refine .bind ?_ fun v hv => .bind (ih hys) fun vs hvs => .pure (.cons hv hvs)
      refine .bind (lowerSubExp_accepts typed hx) fun v hv => ?_
      rw [castToType_accepts (Except.ok.inj (hv.symm.trans hy))]
      exact .pure hv

theorem lowerApply_accepts (typed : ctx.Related HasTy Γ) {fname : String}
    {sig : List PrimType × List PrimType} (h : scalarSig prog fname = some sig)
    {args : List SubExp} (types : args.mapM (typeSubExp Γ) = some sig.1) :
    (lowerApply cfg prog calleeOf fname args (sig.2.map .prim) ctx).Accepts fun vs =>
      List.Forall₂ HasType vs sig.2 := by
  obtain ⟨f, func, found, lowered, hsig, lowersArgs, lowersRets⟩ := scalarSig_lowers h
  have results : (sig.2.map Ty.prim).mapM lowerTy = .ok func.retTypes := by
    rw [Except.mapM_eq_ok, List.forall₂_map_left_iff]
    exact lowersRets.flip
  unfold lowerApply
  rw [found]
  refine .bind (.liftExcept results rfl) fun retTys eq => ?_
  subst eq
  refine .bind (calleeOf_accepts lowered hsig) fun callee eq => ?_
  subst eq
  refine .bind (P := fun vs => vs.map Value.ty = func.retTypes) (.lift ?_) fun returns ty => ?_
  · have length : args.length = func.argTypes.length := by
      rw [(List.mapM_eq_some.mp types).length_eq, lowersArgs.length_eq]
    refine .bind (.liftExcept (zipEqual_of_length cfg length) rfl) fun pairs eq => ?_
    subst eq
    exact .bind (lowerCallArgs_accepts typed types lowersArgs) fun vs _ => .create
  · have length : returns.length = func.retTypes.length := by rw [← ty, List.length_map]
    refine .bind (.liftExcept (zipEqual_of_length cfg length) rfl) fun pairs eq => ?_
    subst eq
    rw [castAll_same ty]
    exact .lift (.pure (HasType.all.mpr (ty ▸ lowersRets)))

def Kept (Γ : Types) (ctx ctx' : Ctx) : Prop := ∀ x, Γ x ≠ none → ctx' x = ctx x

theorem Kept.trans {c c' c'' : Ctx} (h : Kept Γ c c') (h' : Kept Γ c' c'') : Kept Γ c c'' :=
  fun x hx => (h' x hx).trans (h x hx)

theorem Kept.mono {c c' : Ctx} (h : Kept Γ' c c') (sub : Γ.Sub Γ') : Kept Γ c c' := by
  intro x hx
  obtain ⟨ty, bound⟩ := Option.ne_none_iff_exists'.mp hx
  exact h x (by rw [sub x ty bound]; exact Option.some_ne_none ty)

theorem Kept.insertAll {names : List VName} (fresh : FreshNames Γ names) (c : Ctx)
    {vs : List Value} : Kept Γ c (c.insertAll (names.zip vs)) := by
  intro x hx
  refine Ctx.insertAll_of_not_mem fun member => hx (fresh.2 x ?_)
  obtain ⟨p, hp, rfl⟩ := List.mem_map.mp member
  exact (List.of_mem_zip hp).1

/-- The statements that follow a statement, once its pattern is bound. -/
theorem FreshNames.rest {Γ₁ : Types} {pat inner rest : List VName} {tys : List Ty}
    (fresh : FreshNames Γ (pat ++ inner ++ rest)) (bound : Γ.bind pat tys = some Γ₁) :
    Γ.Sub Γ₁ ∧ FreshNames Γ₁ rest := by
  have sub : (pat ++ rest).Sublist (pat ++ inner ++ rest) := by simp
  exact ⟨(fresh.sublist (by simp)).extends_bind bound, (fresh.sublist sub).bind bound⟩

/-- What is kept and known after statements that have a type. -/
abbrev StmsTyped (Γ Γ' : Types) (ctx c : Ctx) : Prop := c.Related HasTy Γ' ∧ Kept Γ ctx c

/-- What is kept and known after an expression that has a type. -/
abbrev ExpTyped (Γ : Types) (ts : List PrimType) (ctx : Ctx) (p : List Value × Ctx) : Prop :=
  List.Forall₂ HasType p.1 ts ∧ Kept Γ ctx p.2

theorem ExpTyped.related {ts : List PrimType} {p : List Value × Ctx} (h : ExpTyped Γ ts ctx p)
    (typed : ctx.Related HasTy Γ) : p.2.Related HasTy Γ :=
  typed.congr h.2

theorem lowerStm_of_typed {exp : Exp} {pat : List PatElem} {ts : List PrimType}
    (typed : ctx.Related HasTy Γ) (fresh : FreshNames Γ (pat.map PatElem.name))
    (h : (lowerExp cfg prog calleeOf exp ctx).Accepts (ExpTyped Γ ts ctx))
    (types : pat.map PatElem.ty = ts.map .prim)
    (bound : Γ.bind (pat.map PatElem.name) (pat.map PatElem.ty) = some Γ') :
    (lowerStm cfg prog calleeOf (.mk pat exp) ctx).Accepts (StmsTyped Γ Γ' ctx) := by
  unfold lowerStm
  refine .bind (.recording h) fun p hp => ?_
  obtain ⟨vs, c⟩ := p
  have length : pat.length = vs.length := by
    rw [hp.1.length_eq, ← List.length_map (f := PatElem.ty), types, List.length_map]
  refine .bind (.liftExcept (zipEqual_of_length cfg length) rfl) fun pairs eq => .pure ?_
  subst eq
  have rel : List.Forall₂ HasTy vs (pat.map PatElem.ty) := by
    rw [types, List.forall₂_map_right_iff]
    exact hp.1
  rw [zip_map_fst]
  exact ⟨(hp.related typed).insertAll bound rel, hp.2.trans (.insertAll fresh c)⟩

theorem merge_types {merge : List (Param × SubExp)} {ts : List PrimType}
    (types : (merge.map Prod.snd).mapM (typeSubExp Γ) = some ts)
    (params : (merge.map fun m => m.1.ty) = ts.map .prim) :
    List.Forall₂ (fun m t => typeSubExp Γ m.2 = some t ∧ m.1.ty = .prim t) merge ts := by
  rw [List.mapM_eq_some, List.forall₂_map_left_iff] at types
  induction types with
  | nil => exact .nil
  | cons hx _ ih =>
    rw [List.map_cons, List.map_cons, List.cons.injEq] at params
    exact .cons ⟨hx, params.1⟩ (ih params.2)

/-- The initial values of a loop at the types of its parameters, which are their own. -/
theorem loopInits_accepts (typed : ctx.Related HasTy Γ) {merge : List (Param × SubExp)}
    {ts : List PrimType} (types : (merge.map Prod.snd).mapM (typeSubExp Γ) = some ts)
    (params : (merge.map fun m => m.1.ty) = ts.map .prim) :
    (loopInits merge ctx).Accepts fun inits =>
      LowersTo (inits.map Prod.fst) ts ∧ inits.map Prod.fst = (inits.map Prod.snd).map Value.ty := by
  have each : List.Forall₂ (fun (m : Param × SubExp) t => Emit.Accepts (do
      let ty ← lowerTy m.1.ty
      let v ← lowerSubExp ctx m.2
      let init ← castToType v ty
      return (ty, init)) fun q => lowerTy (.prim t) = .ok q.1 ∧ q.1 = q.2.ty) merge ts := by
    refine (merge_types types params).imp fun m t h => ?_
    rw [h.2]
    obtain ⟨v, _, _, hv⟩ := lowerSubExp_accepts typed h.1 ⟨"", 0, [], []⟩
    refine .bind (.liftExcept hv rfl) fun ty eq => ?_
    subst eq
    refine .bind (lowerSubExp_accepts typed h.1) fun w hw => ?_
    rw [castToType_accepts (Except.ok.inj (hw.symm.trans hv))]
    exact .pure ⟨hv, Except.ok.inj (hv.symm.trans hw)⟩
  refine Emit.Accepts.weaken (.mapM each) fun inits h => ⟨?_, ?_⟩
  · rw [LowersTo, List.forall₂_map_left_iff]
    exact h.imp fun _ _ h => h.1
  · rw [List.map_map]
    clear each types params
    induction h with
    | nil => rfl
    | cons hx _ ih =>
      rw [List.map_cons, List.map_cons, ih, hx.2]
      rfl

theorem lowerLoop_accepts (typed : ctx.Related HasTy Γ) {merge : List (Param × SubExp)}
    {ts : List PrimType} (types : (merge.map Prod.snd).mapM (typeSubExp Γ) = some ts)
    (params : (merge.map fun m => m.1.ty) = ts.map .prim) {i : VName} {t : IntType}
    {bound : SubExp} {inner : Types}
    (hinner : (Γ.insert i (.prim (.int t))).bind (mergeNames merge)
      (merge.map fun m => m.1.ty) = some inner)
    {body : Ctx → Lower (List Value × Ctx)}
    (step : ∀ c, c.Related HasTy inner → (body c).Accepts fun p => List.Forall₂ HasType p.1 ts)
    (hn : typeSubExp Γ bound = some (.int t)) :
    (lowerLoop cfg merge (.forLoop i t bound) body ctx).Accepts fun vs =>
      List.Forall₂ HasType vs ts := by
  unfold lowerLoop
  refine .bind (.lift (loopInits_accepts typed types params)) fun inits hinits => ?_
  obtain ⟨lowers, same⟩ := hinits
  refine .bind (.lift .createConstant) fun lb _ => ?_
  refine .bind (.lift (lowerSubExp_accepts typed hn)) fun n _ => ?_
  refine .bind (.lift .create1) fun ub _ => ?_
  refine .bind (.lift .createConstant) fun one _ => ?_
  refine .bind (.inBlock (P := fun _ => True) fun args hargs => ?_) fun p _ => ?_
  · cases args with
    | nil => cases hargs
    | cons iv rest =>
      obtain ⟨_, hrest⟩ := List.cons.inj hargs
      have restTypes : rest.map Value.ty = inits.map Prod.fst := hrest.trans same.symm
      refine .bind (.liftExcept rfl rfl) fun iv' eq => ?_
      subst eq
      refine .bind (.lift .create1) fun counter hcounter => ?_
      have length : merge.length = rest.length := by
        rw [← List.length_map (f := Value.ty), restTypes, lowers.length_eq,
          (merge_types types params).length_eq]
      refine .bind (.liftExcept (zipEqual_of_length cfg length) rfl) fun pairs eq => ?_
      subst eq
      rw [zip_map_fst (f := fun m : Param × SubExp => m.1.name)]
      have bodyTyped : ((ctx.insert i counter).insertAll
          ((mergeNames merge).zip rest)).Related HasTy inner := by
        refine (typed.insert (y := .prim (.int t)) (hasType_of rfl hcounter)).insertAll hinner ?_
        rw [params, List.forall₂_map_right_iff]
        exact HasType.all.mpr (restTypes ▸ lowers)
      refine .bind (step _ bodyTyped) fun r hr => ?_
      obtain ⟨results, c⟩ := r
      have resultTypes : results.map Value.ty = inits.map Prod.fst :=
        (HasType.all.mp hr).unique lowers
      have length' : results.length = (inits.map Prod.fst).length := by
        rw [← resultTypes, List.length_map]
      refine .bind (.liftExcept (zipEqual_of_length cfg length') rfl) fun typedResults eq => ?_
      subst eq
      rw [castAll_same resultTypes]
      exact .bind (P := fun _ => True) (.lift (.pure trivial)) fun _ _ => .pure trivial
  · refine .lift (Emit.Accepts.create.weaken fun vs hvs => ?_)
    rw [HasType.all, hvs, ← same]
    exact lowers

mutual

theorem lowerStms_accepts : ∀ (stms : List Stm) (Γ Γ' : Types) (ctx : Ctx),
    typeStms prog stms Γ = some Γ' → ctx.Related HasTy Γ → FreshNames Γ (stmsBinders stms) →
    (lowerStms cfg prog calleeOf stms ctx).Accepts (StmsTyped Γ Γ' ctx)
  | [], Γ, Γ', ctx, h, typed, _ => by
    unfold lowerStms
    cases h
    exact .pure ⟨typed, fun _ _ => rfl⟩
  | .mk pat exp :: rest, Γ, Γ', ctx, h, typed, fresh => by
    rw [stmsBinders] at fresh
    rw [typeStms] at h
    obtain ⟨Γ₁, first, later⟩ := Option.bind_eq_some_iff.mp h
    unfold lowerStms
    refine .bind (lowerStm_accepts (.mk pat exp) Γ Γ₁ ctx first typed
      (fresh.sublist (List.sublist_append_left _ _))) fun c hc => ?_
    rw [typeStm] at first
    obtain ⟨ts, _, first⟩ := Option.bind_eq_some_iff.mp first
    obtain ⟨sub, fresh'⟩ := fresh.rest (Option.ite_none_right_eq_some.mp first).2
    refine (lowerStms_accepts rest Γ₁ Γ' c later hc.1 fresh').weaken fun d hd => ?_
    exact ⟨hd.1, hc.2.trans (hd.2.mono sub)⟩

theorem lowerStm_accepts : ∀ (stm : Stm) (Γ Γ' : Types) (ctx : Ctx),
    typeStm prog stm Γ = some Γ' → ctx.Related HasTy Γ →
    FreshNames Γ (stm.patNames ++ stm.exp.binders) →
    (lowerStm cfg prog calleeOf stm ctx).Accepts (StmsTyped Γ Γ' ctx)
  | .mk pat exp, Γ, Γ', ctx, h, typed, fresh => by
    rw [typeStm] at h
    obtain ⟨ts, type, h⟩ := Option.bind_eq_some_iff.mp h
    obtain ⟨types, bound⟩ := Option.ite_none_right_eq_some.mp h
    exact lowerStm_of_typed typed (fresh.sublist (List.sublist_append_left _ _))
      (lowerExp_accepts exp Γ ts ctx type typed
        (fresh.sublist (List.sublist_append_right _ _))) types bound

theorem lowerBody_accepts : ∀ (body : Body) (Γ : Types) (ts : List PrimType) (ctx : Ctx),
    typeBody prog body Γ = some ts → ctx.Related HasTy Γ → FreshNames Γ body.binders →
    (lowerBody cfg prog calleeOf body ctx).Accepts (ExpTyped Γ ts ctx)
  | .mk stms result, Γ, ts, ctx, h, typed, fresh => by
    rw [typeBody] at h
    obtain ⟨Γ', first, last⟩ := Option.bind_eq_some_iff.mp h
    unfold lowerBody
    refine .bind (lowerStms_accepts stms Γ Γ' ctx first typed fresh) fun c hc => ?_
    refine .bind (.lift (lowerSubExps_accepts hc.1 last)) fun results hresults => ?_
    exact .pure ⟨hresults, hc.2⟩

theorem lowerExp_accepts : ∀ (exp : Exp) (Γ : Types) (ts : List PrimType) (ctx : Ctx),
    typeExp prog exp Γ = some ts → ctx.Related HasTy Γ → FreshNames Γ exp.binders →
    (lowerExp cfg prog calleeOf exp ctx).Accepts (ExpTyped Γ ts ctx)
  | .basicOp op, Γ, ts, ctx, h, typed, _ => by
    rw [typeExp] at h
    obtain ⟨t, type, h⟩ := Option.bind_eq_some_iff.mp h
    cases h
    unfold lowerExp
    exact .bind (.lift (lowerBasicOp_accepts cfg typed type)) fun v hv =>
      .pure ⟨.cons hv .nil, fun _ _ => rfl⟩
  | .subExp se, Γ, ts, ctx, h, typed, _ => by
    rw [typeExp] at h
    obtain ⟨t, type, h⟩ := Option.bind_eq_some_iff.mp h
    cases h
    unfold lowerExp
    exact .bind (.lift (lowerSubExp_accepts typed type)) fun v hv =>
      .pure ⟨.cons hv .nil, fun _ _ => rfl⟩
  | .apply fname args retTypes, Γ, ts, ctx, h, typed, _ => by
    rw [typeExp] at h
    obtain ⟨sig, hsig, h⟩ := Option.bind_eq_some_iff.mp h
    obtain ⟨tys, types, h⟩ := Option.bind_eq_some_iff.mp h
    obtain ⟨⟨rfl, rfl⟩, eq⟩ := Option.ite_none_right_eq_some.mp h
    cases eq
    unfold lowerExp
    exact .bind (lowerApply_accepts typed hsig types) fun vs hvs => .pure ⟨hvs, fun _ _ => rfl⟩
  | .ite cond thenBody elseBody retTypes, Γ, ts, ctx, h, typed, fresh => by
    rw [typeExp] at h
    obtain ⟨c, hc, h⟩ := Option.bind_eq_some_iff.mp h
    obtain ⟨thenTys, hthen, h⟩ := Option.bind_eq_some_iff.mp h
    obtain ⟨elseTys, helse, h⟩ := Option.bind_eq_some_iff.mp h
    obtain ⟨⟨rfl, rfl, rfl⟩, eq⟩ := Option.ite_none_right_eq_some.mp h
    cases eq
    rw [Exp.binders] at fresh
    unfold lowerExp
    refine .bind (.lift (lowerSubExp_accepts typed hc)) fun v _ => ?_
    refine .bind (.inBlock fun _ _ => lowerBody_accepts thenBody Γ _ ctx hthen typed
      (fresh.sublist (List.sublist_append_left _ _))) fun p hp => ?_
    obtain ⟨thenBlock, c₁⟩ := p
    refine .bind (.inBlock fun _ _ => lowerBody_accepts elseBody Γ _ c₁ helse
      (ExpTyped.related hp typed) (fresh.sublist (List.sublist_append_right _ _))) fun q hq => ?_
    obtain ⟨elseBlock, c₂⟩ := q
    refine .bind (.lift .create) fun vs hvs => .pure ⟨?_, hp.2.trans hq.2⟩
    rw [HasType.all, hvs]
    exact HasType.all.mp hp.1
  | .loop merge form body, Γ, ts, ctx, h, typed, fresh => by
    cases form with
    | whileLoop c =>
      rw [typeExp] at h
      cases h
    | forLoop i t bound =>
      rw [typeExp] at h
      obtain ⟨tys, types, h⟩ := Option.bind_eq_some_iff.mp h
      obtain ⟨n, hn, h⟩ := Option.bind_eq_some_iff.mp h
      obtain ⟨inner, hinner, h⟩ := Option.bind_eq_some_iff.mp h
      obtain ⟨results, hresults, h⟩ := Option.bind_eq_some_iff.mp h
      obtain ⟨⟨rfl, mergeTys, rfl⟩, eq⟩ := Option.ite_none_right_eq_some.mp h
      cases eq
      rw [Exp.binders] at fresh
      have bind : Γ.bind (i :: mergeNames merge)
        (.prim (.int t) :: merge.map fun m => m.1.ty) = some inner := hinner
      unfold lowerExp
      refine .bind (lowerLoop_accepts typed types mergeTys hinner (fun c hc => ?_) hn) fun vs hvs =>
        .pure ⟨hvs, fun _ _ => rfl⟩
      exact (lowerBody_accepts body inner _ c hresults hc (fresh.bind bind)).weaken fun _ h => h.1
  | .hostOp op, Γ, ts, ctx, h, _, _ => by
    rw [typeExp] at h
    cases h

end

end FutharkMlir
