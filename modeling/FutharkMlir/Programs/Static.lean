import FutharkMlir.Programs.Types
import FutharkMlir.Scoping.Frame

/-! The types of whole programs are those of what they are lowered to. In every run of the
compiler that is not stopped, a name is bound to a value of just the MLIR type of what its pattern
declares. -/
namespace FutharkMlir

theorem toOption_eq_some {ε α : Type} {x : Except ε α} {a : α} :
    x.toOption = some a ↔ x = .ok a := by
  cases x <;> simp [Except.toOption]

section Operations

variable {Γ : Types} {ctx : Ctx}

theorem create1_type {code : OpCode} {operands : List Value} {ty : MlirTy} :
    (Emit.create1 code operands ty).Returns fun v => v.ty = ty := by
  intro ip v ip' run
  cases run
  rfl

theorem create_types {code : OpCode} {operands : List Value} {tys : List MlirTy}
    {regions : List Block} :
    (Emit.create code operands tys regions).Returns fun vs => vs.map Value.ty = tys := by
  intro ip vs ip' run
  cases run
  exact freshValues_types _ _ _

theorem Emit.Accepts.returns {α : Type} {m : Emit α} {Q : α → Prop} (h : m.Accepts Q) :
    m.Returns Q := by
  intro ip a ip' run
  obtain ⟨b, ip'', run', holds⟩ := h ip
  cases run.symm.trans run'
  exact holds

theorem lookup_returns (x : VName) : (ctx.lookup x).Returns fun v => ctx x = some v := by
  intro ip v ip' run
  exact (Ctx.lookup_ok run).1

theorem mapM_each {α β γ : Type} {f : α → Emit β} {R : β → γ → Prop} {xs : List α} {ys : List γ}
    (h : List.Forall₂ (fun x y => (f x).Returns fun b => R b y) xs ys) :
    (xs.mapM f).Returns fun bs => List.Forall₂ R bs ys := by
  induction h with
  | nil => exact .pure .nil
  | cons hx _ ih =>
    rw [List.mapM_cons]
    exact .bind hx fun b hb => .bind ih fun bs hbs => .pure (.cons hb hbs)

theorem types_eq {vs : List Value} {tys : List MlirTy} :
    List.Forall₂ (fun v ty => v.ty = ty) vs tys ↔ vs.map Value.ty = tys := by
  rw [← List.forall₂_eq_eq_eq, List.forall₂_map_left_iff]

theorem mapM_types {α : Type} {f : α → Emit Value} {xs : List α} {tys : List MlirTy}
    (h : List.Forall₂ (fun x ty => (f x).Returns fun v => v.ty = ty) xs tys) :
    (xs.mapM f).Returns fun vs => vs.map Value.ty = tys :=
  (mapM_each h).weaken fun _ => types_eq.mp

theorem related_hasTy (typed : ctx.Related HasExact Γ) : ctx.Related HasTy Γ := by
  intro x ty bound
  obtain ⟨v, hv, exact'⟩ := typed x ty bound
  exact ⟨v, hv, exact'.hasTy⟩

/-- A constant or a variable has the type that is known of it. -/
theorem lowerSubExp_type (typed : ctx.Related HasExact Γ) {se : SubExp} {ty : MlirTy}
    (h : loweredType Γ se = some ty) : (lowerSubExp ctx se).Returns fun v => v.ty = ty := by
  cases se with
  | const c =>
    obtain ⟨t, type, lowered⟩ := Option.bind_eq_some_iff.mp h
    rw [toOption_eq_some] at lowered
    have accepts : (lowerSubExp ctx (.const c)).Accepts fun v => HasType v t :=
      lowerSubExp_accepts (related_hasTy typed) type
    exact accepts.returns.weaken fun v hv => Except.ok.inj (hv.symm.trans lowered)
  | var x =>
    obtain ⟨ty', bound, lowered⟩ := Option.bind_eq_some_iff.mp h
    rw [toOption_eq_some] at lowered
    refine (lookup_returns x).weaken fun v hv => ?_
    obtain ⟨w, hw, exact'⟩ := typed x ty' bound
    cases hv.symm.trans hw
    exact Except.ok.inj (exact'.symm.trans lowered)

theorem lowerSubExps_types (typed : ctx.Related HasExact Γ) {ses : List SubExp}
    {tys : List MlirTy} (h : ses.mapM (loweredType Γ) = some tys) :
    (lowerSubExps ctx ses).Returns fun vs => vs.map Value.ty = tys := by
  rw [List.mapM_eq_some] at h
  exact mapM_types (h.imp fun _ _ known => lowerSubExp_type typed known)

theorem sliceDims_shape {dims : List DimIndex} {sds : List SliceDim}
    (h : List.Forall₂ ExtentOf dims sds) :
    (sliceLengths dims).mapM toShapeDim = .ok (sds.filterMap SliceDim.extent) := by
  rw [Except.mapM_eq_ok]
  induction h with
  | nil => exact .nil
  | @cons d sd dims sds hd _ ih =>
    cases d with
    | fix i =>
      rw [List.filterMap_cons, hd.1]
      exact ih
    | slice start length stride =>
      rw [List.filterMap_cons, hd.1]
      exact .cons hd.2 ih

/-- A slice has the elements of its source, and its extents are the lengths. -/
theorem lowerSlice_type (typed : ctx.Related HasExact Γ) {arr : VName} {dims : List DimIndex}
    {ty : MlirTy} (slices : dims.any DimIndex.isSlice = true)
    (h : checkSlice Γ arr dims = some ty) :
    (lowerIndex arr dims ctx).Returns fun u => u.ty = ty := by
  unfold checkSlice at h
  split at h
  · rename_i elem shape bound
    simp only [Option.bind_eq_bind, Option.bind_eq_some_iff, toOption_eq_some, Option.pure_def,
      Option.some.injEq] at h
    obtain ⟨lengths, hlengths, e, lowered, rfl⟩ := h
    obtain ⟨v, hv, exact'⟩ := typed arr _ bound
    obtain ⟨s, e', vty, lowered', _⟩ := exact'.hasTy
    cases lowered.symm.trans lowered'
    unfold lowerIndex
    refine .bind (lookup_returns arr) fun w hw => ?_
    cases hv.symm.trans hw
    rw [slices]
    refine .bind (.mapM lowerSliceDim_returns dims) fun sds hsds => ?_
    refine .bind (Emit.liftExcept_returns _) fun ranked hranked => ?_
    rw [vty] at hranked
    cases hranked
    cases hlengths.symm.trans (sliceDims_shape hsds)
    exact create1_type
  · cases h

theorem lowerIota_type {n x s : SubExp} {t : IntType} {d : Int} (shape : toShapeDim n = .ok d) :
    (lowerIota n x s t ctx).Returns fun u => u.ty = .tensor [d] (.int t.getWidth) := by
  unfold lowerIota
  refine .bind (.any _) fun _ _ => .bind (.any _) fun _ _ => .bind (.any _) fun _ _ => ?_
  refine .bind (.any _) fun _ _ => .bind (Emit.liftExcept_returns _) fun d' same => ?_
  cases shape.symm.trans same
  unfold createIota
  refine .bind create1_type fun output houtput => .bind (.any _) fun body _ => ?_
  refine .bind create_types fun vs hvs => (Emit.liftExcept_returns _).weaken fun u hu => ?_
  cases vs with
  | nil => cases hvs
  | cons v vs =>
    cases hu
    exact (List.cons.inj hvs).1.trans houtput

theorem lowerArrayLit_type {values : List SubExp} {t : Ty} {ty : MlirTy} (h : lowerTy t = .ok ty)
    (array : ∃ s e, ty = .tensor s e) :
    (lowerArrayLit values t ctx).Returns fun u => u.ty = ty := by
  obtain ⟨s, e, rfl⟩ := array
  unfold lowerArrayLit
  refine .bind (Emit.liftExcept_returns _) fun ty' same => ?_
  cases h.symm.trans same
  refine .bind (.any _) fun prefix' _ => ?_
  obtain ⟨attrs, allConstants⟩ := prefix'
  dsimp only
  split
  · refine .bind (Emit.liftExcept_returns _) fun ranked eq => ?_
    cases eq
    exact Emit.Accepts.createConstant.returns
  · exact .bind (.any _) fun _ _ => create1_type

theorem lowerReplicate_type (cfg : Config) (typed : ctx.Related HasExact Γ) {dims : List SubExp}
    {val : SubExp} {ty : MlirTy} (h : checkReplicate Γ dims val = some ty) :
    (lowerReplicate cfg dims val ctx).Returns fun u => u.ty = ty := by
  obtain ⟨inner, known, h⟩ := Option.bind_eq_some_iff.mp h
  unfold lowerReplicate
  refine .bind (lowerSubExp_type typed known) fun op hop => ?_
  subst hop
  split at h
  · rename_i none
    cases h
    rw [if_pos none]
    exact .pure rfl
  · rename_i some
    rw [if_neg some]
    obtain ⟨shape, hshape, h⟩ := Option.bind_eq_some_iff.mp h
    rw [toOption_eq_some] at hshape
    refine .bind (Emit.liftExcept_returns _) fun shape' hshape' => ?_
    cases hshape.symm.trans hshape'
    refine .bind (.any _) fun pairs _ => .bind (.any _) fun sizes _ => ?_
    have source : (replicatedValue op).Returns fun r =>
        MlirTy.tensor (shape ++ r.1) r.2.1 = ty := by
      unfold replicatedValue
      cases eq : op.ty with
      | tensor s e =>
        rw [eq] at h
        cases h
        exact .bind (.any _) fun _ _ => .pure rfl
      | scalar e =>
        rw [eq] at h
        cases h
        exact .bind (.any _) fun _ _ => .pure (by rw [List.append_nil])
    refine .bind source fun r hr => ?_
    refine .bind create1_type fun destination hd => create1_type.weaken fun u hu => ?_
    exact hu.trans (hd.trans hr)

theorem lowerBasicOp_type (cfg : Config) (typed : ctx.Related HasExact Γ) {op : BasicOp}
    {ty : MlirTy} (h : checkOp Γ op = some ty) :
    (lowerBasicOp cfg op ctx).Returns fun u => u.ty = ty := by
  have scalar (h : (typeBasicOp Γ op).bind (fun t => (lowerTy (.prim t)).toOption) = some ty) :
      (lowerBasicOp cfg op ctx).Returns fun u => u.ty = ty := by
    obtain ⟨t, type, lowered⟩ := Option.bind_eq_some_iff.mp h
    rw [toOption_eq_some] at lowered
    exact (lowerBasicOp_accepts cfg (related_hasTy typed) type).returns.weaken fun u hu =>
      Except.ok.inj (hu.symm.trans lowered)
  cases op with
  | subExp se => exact lowerSubExp_type typed h
  | index arr dims =>
    rw [checkOp] at h
    split at h
    · exact lowerSlice_type typed ‹_› h
    · exact scalar h
  | iota n x s t =>
    obtain ⟨d, shape, h⟩ := Option.bind_eq_some_iff.mp h
    cases (Option.ite_none_right_eq_some.mp h).2
    exact lowerIota_type (toOption_eq_some.mp shape)
  | replicate dims val => exact lowerReplicate_type cfg typed h
  | arrayLit values t =>
    rw [checkOp] at h
    cases t with
    | array t shape =>
      obtain ⟨ts, _, h⟩ := Option.bind_eq_some_iff.mp h
      have lowered := toOption_eq_some.mp (Option.ite_none_right_eq_some.mp h).2
      refine lowerArrayLit_type lowered ?_
      simp only [lowerTy, Except.bind_eq_ok, Except.pure_eq_ok] at lowered
      obtain ⟨s, _, e, _, eq⟩ := lowered
      exact ⟨s, e, eq.symm⟩
    | prim t => cases h
    | acc => cases h
    | mem => cases h
  | _ => exact scalar h

end Operations

section Casts

theorem castToType_type {v : Value} {dst : MlirTy} (same : castable v.ty dst = true) :
    (castToType v dst).Returns fun u => u.ty = dst := by
  unfold castToType
  split
  · rename_i eq
    exact .pure eq
  · split
    · exact create1_type
    · split
      · rename_i e eq
        rw [eq] at same
        cases dst with
        | scalar e' => cases same
        | tensor s e' => exact .throw _
      · exact .throw _

theorem allCastable_iff {srcs dsts : List MlirTy} : allCastable srcs dsts = true ↔
    List.Forall₂ (fun src dst => castable src dst = true) srcs dsts := by
  induction srcs generalizing dsts with
  | nil => cases dsts <;> simp [allCastable]
  | cons src srcs ih => cases dsts <;> simp [allCastable, ih]

theorem castAll_types {vs : List Value} {dsts : List MlirTy}
    (same : allCastable (vs.map Value.ty) dsts = true) :
    (castAll (vs.zip dsts)).Returns fun us => us.map Value.ty = dsts := by
  rw [allCastable_iff, List.forall₂_map_left_iff] at same
  refine mapM_types ?_
  induction same with
  | nil => exact .nil
  | cons hv _ ih => exact .cons (castToType_type hv) ih

variable {cfg : Config} {prog : Prog} {Γ : Types} {ctx : Ctx}

theorem calleeOf_returns {f : FunDef} (lowered : f.lowered = true) {sig : FuncSig}
    (h : funcSig f = .ok sig) : (calleeOf f).Returns fun c => c = .func sig := by
  intro b c b' run
  exact (calleeOf_accepts lowered h).of_run run

theorem funcSig_of {f : FunDef} {params rets : List MlirTy}
    (hparams : lowerTys (f.params.map Param.ty) = some params) (hrets : lowerTys f.retType = some rets) :
    funcSig f = .ok ⟨f.name, params, rets⟩ := by
  rw [lowerTys, toOption_eq_some] at hparams hrets
  rw [funcSig, hparams, hrets]
  rfl

theorem lowerApply_types {f : FunDef} {fname : String} {args : List SubExp} {retTypes : List Ty}
    {params rets tys : List MlirTy} (found : findFunction prog fname = some f)
    (lowered : f.lowered = true) (hparams : lowerTys (f.params.map Param.ty) = some params)
    (hrets : lowerTys f.retType = some rets) (htys : lowerTys retTypes = some tys)
    (casts : allCastable rets tys = true) :
    (lowerApply cfg prog calleeOf fname args retTypes ctx).Returns fun vs =>
      vs.map Value.ty = tys := by
  rw [lowerTys, toOption_eq_some] at htys
  unfold lowerApply
  rw [found]
  refine .bind (Lower.liftExcept_returns _) fun tys' same => ?_
  cases htys.symm.trans same
  refine .bind (calleeOf_returns lowered (funcSig_of hparams hrets)) fun c hc => ?_
  subst hc
  unfold lowerCallee
  refine .bind (Lower.lift_returns (.bind (.any _) fun _ _ => .bind (.any _) fun _ _ => create_types))
    fun vs hvs => ?_
  refine .bind (Lower.liftExcept_returns _) fun pairs eq => ?_
  rw [zipEqual_eq cfg eq]
  exact Lower.lift_returns (castAll_types (by rw [hvs]; exact casts))

theorem loopInits_types (typed : ctx.Related HasExact Γ) {merge : List (Param × SubExp)}
    {srcs dsts : List MlirTy} (lowered : lowerTys (merge.map fun m => m.1.ty) = some dsts)
    (check : (merge.map Prod.snd).mapM (loweredType Γ) = some srcs)
    (casts : allCastable srcs dsts = true) :
    (loopInits merge ctx).Returns fun inits => (inits.map Prod.snd).map Value.ty = dsts := by
  rw [lowerTys, toOption_eq_some, Except.mapM_eq_ok, List.forall₂_map_left_iff] at lowered
  rw [List.mapM_eq_some, List.forall₂_map_left_iff] at check
  rw [allCastable_iff] at casts
  have each : (loopInits merge ctx).Returns fun inits =>
      List.Forall₂ (fun init ty => init.2.ty = ty) inits dsts := by
    refine mapM_each ?_
    induction lowered generalizing srcs with
    | nil => exact .nil
    | cons hty _ ih =>
      cases check with
      | cons hc hcs =>
        cases casts with
        | cons cast casts =>
          refine .cons ?_ (ih hcs casts)
          refine .bind (Emit.liftExcept_returns _) fun ty same => ?_
          cases hty.symm.trans same
          refine .bind (lowerSubExp_type typed hc) fun v hv => ?_
          exact .bind (castToType_type (hv ▸ cast)) fun u hu => .pure hu
  exact each.weaken fun inits h => types_eq.mp (List.forall₂_map_left_iff.mpr h)

theorem lowerLoop_types (typed : ctx.Related HasExact Γ) {merge : List (Param × SubExp)}
    {srcs dsts : List MlirTy} (lowered : lowerTys (merge.map fun m => m.1.ty) = some dsts)
    (check : (merge.map Prod.snd).mapM (loweredType Γ) = some srcs)
    (casts : allCastable srcs dsts = true) {i : VName} {t : IntType} {bound : SubExp}
    {body : Ctx → Lower (List Value × Ctx)} :
    (lowerLoop cfg merge (.forLoop i t bound) body ctx).Returns fun vs =>
      vs.map Value.ty = dsts := by
  unfold lowerLoop
  refine .bind (Lower.lift_returns (loopInits_types typed lowered check casts)) fun typed htyped => ?_
  refine .bind (.any _) fun lb _ => .bind (.any _) fun n _ => .bind (.any _) fun ub _ => ?_
  refine .bind (.any _) fun step _ => .bind (.any _) fun p _ => ?_
  exact Lower.lift_returns (create_types.weaken fun vs hvs => hvs.trans htyped)

end Casts

section SegOps

variable {cfg : Config} {prog : Prog} {space : SegSpace} {Γ : Types} {ctx : Ctx}

theorem lowerSegMap_types {lvl : SegLevel} {stms : List Stm} {result : List SubExp} {ret : List Ty}
    {lowerStms : List VName → Ctx → Lower Ctx} {tys : List MlirTy}
    (h : segOpTypes space.dims ret = .ok tys) :
    (lowerSegMap cfg lvl space stms result ret lowerStms ctx).Returns fun vs =>
      vs.map Value.ty = tys := by
  unfold lowerSegMap
  refine .bind (.any _) fun _ _ => .bind (.any _) fun ds _ => .bind (.any _) fun reads _ => ?_
  refine .bind (.any _) fun inputs _ => ?_
  refine .bind (Lower.liftExcept_returns _) fun tys' same => ?_
  cases h.symm.trans same
  refine .bind (.any _) fun sizes _ => .bind (.any _) fun outputs _ => ?_
  exact .bind (.any _) fun p _ => Lower.lift_returns create_types

theorem lowerSegRed_types {lvl : SegLevel} {stms : List Stm} {result : List SubExp}
    {params : List Param} {ret : List Ty} {neutral shape : List SubExp}
    {lowerStms : List VName → Ctx → Lower Ctx} {lowerLambda : Ctx → Lower (List Value × Ctx)}
    {tys : List MlirTy}
    (h : segOpTypes (space.dims.take (space.dims.length - 1)) ret = .ok tys) :
    (lowerSegRed cfg lvl space stms result params ret neutral shape lowerStms lowerLambda
      ctx).Returns fun vs => vs.map Value.ty = tys := by
  unfold lowerSegRed
  refine .bind (.any _) fun _ _ => ?_
  split
  · exact .throw _
  refine .bind (.any _) fun nvs _ => ?_
  refine .bind (Lower.lift_returns (lowerSegDims_returns 0 space.dims)) fun ds names => ?_
  dsimp only
  split
  · exact .throw _
  refine .bind (.any _) fun reads _ => .bind (.any _) fun inputs _ => ?_
  rw [names.length]
  refine .bind (Lower.liftExcept_returns _) fun tys' same => ?_
  cases h.symm.trans same
  refine .bind (.any _) fun sizes _ => .bind (.any _) fun pairs _ => .bind (.any _) fun outs _ => ?_
  exact .bind (.any _) fun p _ => Lower.lift_returns create_types

theorem tieShapes_types (sizes vs : List Value) :
    (tieShapes sizes vs).Returns fun us => us.map Value.ty = vs.map Value.ty := by
  unfold tieShapes
  split
  · exact .pure rfl
  · refine (Tracked.Returns.mapM (R := fun v u => u.ty = v.ty) (fun v => create1_type) vs).weaken
      fun us h => ?_
    rw [← List.forall₂_eq_eq_eq, List.forall₂_map_left_iff, List.forall₂_map_right_iff]
    exact h.flip

theorem lowerSegScan_types {lvl : SegLevel} {result : List SubExp} {params postParams : List Param}
    {ret : List Ty} {neutral shape : List SubExp} {lowerStms : List VName → Ctx → Lower Ctx}
    {lowerOp lowerPost : Ctx → Lower (List Value × Ctx)} {tys : List MlirTy}
    (h : segOpTypes space.dims ret = .ok tys) :
    (lowerSegScan cfg lvl space result ret params neutral shape postParams lowerStms lowerOp
      lowerPost ctx).Returns fun vs => vs.map Value.ty = tys := by
  unfold lowerSegScan
  refine .bind (.any _) fun _ _ => ?_
  split
  · exact .throw _
  refine .bind (.any _) fun ds _ => ?_
  split
  · exact .throw _
  refine .bind (.any _) fun nvs _ => ?_
  refine .bind (Lower.liftExcept_returns _) fun tys' same => ?_
  cases h.symm.trans same
  refine .bind (.any _) fun sizes _ => .bind (.any _) fun outs _ => .bind (.any _) fun zero _ => ?_
  refine .bind (.any _) fun one _ => .bind (.any _) fun ub _ => .bind (.any _) fun ubs _ => ?_
  refine .bind (.any _) fun p _ => ?_
  refine .bind (Lower.lift_returns create_types) fun results hresults => ?_
  exact Lower.lift_returns ((tieShapes_types sizes results).weaken fun us same => same.trans hresults)

end SegOps

section Programs

variable {cfg : Config} {prog : Prog}

theorem lowerSegOp_types {Γ : Types} {ctx : Ctx} {op : SegOp} {tys : List MlirTy}
    (h : checkSegOp prog Γ op = some tys) :
    (lowerSegOp cfg prog calleeOf op ctx).Returns fun vs => vs.map Value.ty = tys := by
  unfold checkSegOp at h
  split at h
  · obtain ⟨ts, _, h⟩ := Option.bind_eq_some_iff.mp h
    unfold lowerSegOp
    exact lowerSegMap_types (toOption_eq_some.mp (Option.ite_none_right_eq_some.mp h).2)
  · obtain ⟨ts, _, h⟩ := Option.bind_eq_some_iff.mp h
    obtain ⟨⟨rfl, _⟩, types⟩ := Option.ite_none_right_eq_some.mp h
    unfold lowerSegOp
    exact lowerSegRed_types (toOption_eq_some.mp types)
  · obtain ⟨ts, _, h⟩ := Option.bind_eq_some_iff.mp h
    obtain ⟨rets, _, h⟩ := Option.bind_eq_some_iff.mp h
    unfold lowerSegOp
    exact lowerSegScan_types (toOption_eq_some.mp (Option.ite_none_right_eq_some.mp h).2)
  · cases h

theorem Lower.inBlock_yields {α : Type} {argTys : List MlirTy}
    {body : List Value → Lower (List Value × α)} {P : List Value × α → Prop}
    (h : ∀ args, (body args).Returns P) :
    (Lower.inBlock argTys body).Returns fun p => P (p.1.yield, p.2) := by
  intro b p b' run
  simp only [Lower.inBlock] at run
  split at run
  · rename_i yield a inner hrun
    cases run
    exact h _ _ _ inner hrun
  · cases run

/-- What is returned has these types, and no name that has a type is bound anew. -/
abbrev ExpExact (Γ : Types) (tys : List MlirTy) (ctx : Ctx) (p : List Value × Ctx) : Prop :=
  p.1.map Value.ty = tys ∧ Kept Γ ctx p.2

theorem ExpExact.related {Γ : Types} {tys : List MlirTy} {ctx : Ctx} {p : List Value × Ctx}
    (h : ExpExact Γ tys ctx p) (typed : ctx.Related HasExact Γ) : p.2.Related HasExact Γ :=
  typed.congr h.2

theorem exact_values {vs : List Value} {tys : List Ty} (h : lowerTys tys = some (vs.map Value.ty)) :
    List.Forall₂ HasExact vs tys := by
  rw [lowerTys, toOption_eq_some, Except.mapM_eq_ok, List.forall₂_map_right_iff] at h
  exact h.flip

mutual

theorem lowerStms_typed : ∀ (stms : List Stm) (Γ Γ' : Types) (ctx : Ctx),
    checkStms prog stms Γ = some Γ' → ctx.Related HasExact Γ →
    (lowerStms cfg prog calleeOf stms ctx).Returns fun c =>
      c.Related HasExact Γ' ∧ Kept Γ ctx c ∧ Γ.Sub Γ'
  | [], Γ, Γ', ctx, h, typed => by
    unfold lowerStms
    cases h
    exact .pure ⟨typed, fun _ _ => rfl, .refl Γ⟩
  | stm :: rest, Γ, Γ', ctx, h, typed => by
    obtain ⟨Γ₁, first, later⟩ := Option.bind_eq_some_iff.mp h
    unfold lowerStms
    refine .bind (lowerStm_typed stm Γ Γ₁ ctx first typed) fun c hc => ?_
    refine (lowerStms_typed rest Γ₁ Γ' c later hc.1).weaken fun d hd => ?_
    exact ⟨hd.1, hc.2.1.trans (hd.2.1.mono hc.2.2), hc.2.2.trans hd.2.2⟩

theorem lowerStm_typed : ∀ (stm : Stm) (Γ Γ' : Types) (ctx : Ctx),
    checkStm prog stm Γ = some Γ' → ctx.Related HasExact Γ →
    (lowerStm cfg prog calleeOf stm ctx).Returns fun c =>
      c.Related HasExact Γ' ∧ Kept Γ ctx c ∧ Γ.Sub Γ'
  | .mk pat exp, Γ, Γ', ctx, h, typed => by
    obtain ⟨tys, type, h⟩ := Option.bind_eq_some_iff.mp h
    obtain ⟨⟨declared, fresh⟩, bound⟩ := Option.ite_none_right_eq_some.mp h
    unfold lowerStm
    refine .bind (Lower.recording_returns (lowerExp_typed exp Γ tys ctx type typed)) fun p hp => ?_
    refine .bind (Lower.liftExcept_returns _) fun pairs eq => .pure ?_
    rw [zipEqual_eq cfg eq, zip_map_fst]
    have values := exact_values (hp.1.symm ▸ declared)
    exact ⟨(hp.related typed).insertAll bound values, hp.2.trans (.insertAll fresh p.2),
      fresh.extends_bind bound⟩

theorem lowerBody_typed : ∀ (body : Body) (Γ : Types) (tys : List MlirTy) (ctx : Ctx),
    checkBody prog body Γ = some tys → ctx.Related HasExact Γ →
    (lowerBody cfg prog calleeOf body ctx).Returns (ExpExact Γ tys ctx)
  | .mk stms result, Γ, tys, ctx, h, typed => by
    obtain ⟨Γ', first, last⟩ := Option.bind_eq_some_iff.mp h
    unfold lowerBody
    refine .bind (lowerStms_typed stms Γ Γ' ctx first typed) fun c hc => ?_
    refine .bind (Lower.lift_returns (lowerSubExps_types hc.1 last)) fun vs hvs => ?_
    exact .pure ⟨hvs, hc.2.1⟩

theorem lowerExp_typed : ∀ (exp : Exp) (Γ : Types) (tys : List MlirTy) (ctx : Ctx),
    checkExp prog exp Γ = some tys → ctx.Related HasExact Γ →
    (lowerExp cfg prog calleeOf exp ctx).Returns (ExpExact Γ tys ctx)
  | .basicOp op, Γ, tys, ctx, h, typed => by
    obtain ⟨ty, type, h⟩ := Option.bind_eq_some_iff.mp h
    cases h
    unfold lowerExp
    refine .bind (Lower.lift_returns (lowerBasicOp_type cfg typed type)) fun v hv => ?_
    exact .pure ⟨congrArg (fun ty => [ty]) hv, fun _ _ => rfl⟩
  | .subExp se, Γ, tys, ctx, h, typed => by
    obtain ⟨ty, type, h⟩ := Option.bind_eq_some_iff.mp h
    cases h
    unfold lowerExp
    refine .bind (Lower.lift_returns (lowerSubExp_type typed type)) fun v hv => ?_
    exact .pure ⟨congrArg (fun ty => [ty]) hv, fun _ _ => rfl⟩
  | .apply fname args retTypes, Γ, tys, ctx, h, typed => by
    simp only [checkExp, Option.bind_eq_bind, Option.bind_eq_some_iff] at h
    obtain ⟨f, found, argTys, _, params, hparams, rets, hrets, tys', htys, h⟩ := h
    obtain ⟨⟨lowered, _, casts⟩, eq⟩ := Option.ite_none_right_eq_some.mp h
    cases eq
    unfold lowerExp
    refine .bind (lowerApply_types found lowered hparams hrets htys casts) fun vs hvs => ?_
    exact .pure ⟨hvs, fun _ _ => rfl⟩
  | .ite cond thenBody elseBody _, Γ, tys, ctx, h, typed => by
    simp only [checkExp, Option.bind_eq_bind, Option.bind_eq_some_iff] at h
    obtain ⟨thenTys, hthen, elseTys, helse, h⟩ := h
    obtain ⟨⟨_, same⟩, eq⟩ := Option.ite_none_right_eq_some.mp h
    subst same
    cases eq
    unfold lowerExp
    refine .bind (.any _) fun c _ => ?_
    refine .bind (Lower.inBlock_yields fun _ => lowerBody_typed thenBody Γ tys ctx hthen typed)
      fun p hp => ?_
    refine .bind (Lower.inBlock_yields fun _ =>
      lowerBody_typed elseBody Γ tys p.2 helse (hp.related typed)) fun q hq => ?_
    refine .bind (Lower.lift_returns create_types) fun vs hvs => ?_
    exact .pure ⟨hvs.trans hp.1, hp.2.trans hq.2⟩
  | .loop merge form body, Γ, tys, ctx, h, typed => by
    cases form with
    | whileLoop c => cases h
    | forLoop i t bound =>
      simp only [checkExp, Option.bind_eq_bind, Option.bind_eq_some_iff] at h
      obtain ⟨inits, hinits, tys', htys, inner, _, results, _, h⟩ := h
      obtain ⟨⟨_, _, casts, _⟩, eq⟩ := Option.ite_none_right_eq_some.mp h
      cases eq
      unfold lowerExp
      refine .bind (lowerLoop_types typed htys hinits casts) fun vs hvs => ?_
      exact .pure ⟨hvs, fun _ _ => rfl⟩
  | .hostOp op, Γ, tys, ctx, h, typed => by
    unfold lowerExp
    refine .bind (P := fun vs => vs.map Value.ty = tys) ?_ fun vs hvs => .pure ⟨hvs, fun _ _ => rfl⟩
    unfold lowerHostOp
    cases op with
    | segOp op =>
      rw [checkExp] at h
      exact lowerSegOp_types h
    | sizeOp => exact .throw _
    | gpuBody => exact .throw _

end

end Programs

end FutharkMlir
