import FutharkMlir.Invariance.Kernels

namespace FutharkMlir

variable {c : Change} {cfg cfg' : Config} (builds : c.Builds cfg cfg') {ctx ctx' : Ctx}
  {T : List FuncSig × List FuncOp → List FuncSig × List FuncOp → Prop}

section Loops

theorem loopInits_alike (env : c.Renames ctx ctx') (merge : List (Param × SubExp)) :
    Emit.Alike c Eq (loopInits merge ctx)
      (loopInits (merge.map (renameMerge c.rename)) ctx') := by
  refine .mapM_map merge fun m _ => ?_
  simp only [renameMerge, Param.rename, lowerTy_rename]
  refine .next (.except _) fun ty => .next (lowerSubExp_alike env m.2) fun v => ?_
  exact .next (castToType_alike _ _) fun init => .pure rfl

include builds

theorem lowerLoop_alike {body body' : Ctx → Lower (List Value × Ctx)}
    (step : ∀ ctx ctx', c.Renames ctx ctx' →
      Lower.Alike c T (WithSame c.Renames) (body ctx) (body' ctx'))
    (env : c.Renames ctx ctx') (merge : List (Param × SubExp)) (form : LoopForm) :
    Lower.Alike c T Eq (lowerLoop cfg merge form body ctx)
      (lowerLoop cfg' (merge.map (renameMerge c.rename)) (form.rename c.rename) body' ctx') := by
  cases form with
  | whileLoop cond => exact .lowerUndefined
  | forLoop i t bound =>
    refine .next (.emit (loopInits_alike env merge)) fun typed => ?_
    refine .next (.emit (.createConstant _ _)) fun lb => ?_
    refine .next (.emit (lowerSubExp_alike env bound)) fun n => ?_
    refine .next (.emit (indexCast_alike _ _)) fun ub => ?_
    refine .next (.emit (.createConstant _ _)) fun step' => ?_
    refine .bind (.lowerBlock (R := fun _ _ => True) _ fun args => ?_) ?_
    · refine .next (.emit (.except _)) fun iv => .next (.emit (indexCast_alike _ _)) fun counter => ?_
      refine .bind (.emit (.lift (zipEqual_renames builds (fun m => m.1.name)
        (renameMerge c.rename) (fun _ => rfl) (env.insert i counter) merge (args.drop 1))))
        fun ps qs bound => .bind (step _ _ bound) ?_
      rintro ⟨results, _⟩ ⟨_, _⟩ ⟨rfl, _⟩
      refine .next (.emit (.lift (zipEqual_same builds _ _))) fun typedResults => ?_
      exact .next (.emit (castAll_alike _)) fun yields => .pure ⟨rfl, trivial⟩
    · rintro ⟨block, _⟩ ⟨_, _⟩ ⟨rfl, _⟩
      exact .emit (.create _ _ _ _)

end Loops

section Applications

theorem lowerCallArgs_alike (env : c.Renames ctx ctx') (pairs : List (SubExp × MlirTy)) :
    Emit.Alike c Eq (lowerCallArgs ctx pairs)
      (lowerCallArgs ctx' (pairs.map fun p => (p.1.rename c.rename, p.2))) :=
  .mapM_map pairs fun p _ => .next (lowerSubExp_alike env p.1) fun _ => castToType_alike _ _

/-- A function of the one program stands for that of the same name in the other. -/
structure Linked (c : Change)
    (T : List FuncSig × List FuncOp → List FuncSig × List FuncOp → Prop) (prog prog' : Prog)
    (lowerFunction lowerFunction' : FunDef → Lower Callee) : Prop where
  found : ∀ x, Option.Rel (fun f f' => Lower.Alike c T Eq (lowerFunction f) (lowerFunction' f'))
    (findFunction prog x) (findFunction prog' x)

include builds

theorem lowerCallee_alike (env : c.Renames ctx ctx') (callee : Callee) (args : List SubExp)
    (retTys : List MlirTy) :
    Emit.Alike c Eq (lowerCallee cfg callee args retTys ctx)
      (lowerCallee cfg' callee (args.map (SubExp.rename c.rename)) retTys ctx') := by
  cases callee with
  | func sig =>
    refine .bind (.lift (zipEqual_agrees builds (SubExp.rename c.rename) args sig.argTypes)) ?_
    rintro pairs _ rfl
    exact .next (lowerCallArgs_alike env pairs) fun vs => .create _ _ _ _
  | blackBox b =>
    exact .next (lowerSubExps_alike env args) fun vs => lowerBlackBox_alike builds b vs retTys

theorem lowerApply_alike {prog prog' : Prog} {lf lf' : FunDef → Lower Callee}
    (linked : Linked c T prog prog' lf lf') (env : c.Renames ctx ctx') (fname : String)
    (args : List SubExp) (retTypes : List Ty) :
    Lower.Alike c T Eq (lowerApply cfg prog lf fname args retTypes ctx)
      (lowerApply cfg' prog' lf' fname (args.map (SubExp.rename c.rename))
        (retTypes.map (Ty.rename c.rename)) ctx') := by
  have found := linked.found fname
  unfold lowerApply
  rw [lowerTys_rename]
  generalize findFunction prog fname = f at found ⊢
  generalize findFunction prog' fname = f' at found ⊢
  cases found with
  | none =>
    exact .next (.emit (lowerSubExps_alike env args)) fun vs => .emit (lowerIntrinsic_alike fname vs)
  | some callees =>
    refine .next (.emit (.except _)) fun retTys => .next callees fun callee => ?_
    refine .next (.emit (lowerCallee_alike builds env callee args retTys)) fun returns => ?_
    exact .next (.emit (.lift (zipEqual_same builds _ _))) fun pairs => .emit (castAll_alike pairs)

end Applications

section Expressions

theorem skips_rename (stm : Stm) (skip : List VName) :
    ((stm.rename c.rename).pat.map PatElem.name).any (skip.map c.rename).contains =
      (stm.pat.map PatElem.name).any skip.contains := by
  obtain ⟨pat, exp⟩ := stm
  have names : (pat.map (PatElem.rename c.rename)).map PatElem.name =
      (pat.map PatElem.name).map c.rename := by
    simp [PatElem.rename, Function.comp_def]
  simp only [Stm.rename, Stm.pat, names, List.any_map]
  congr 1
  funext e
  simp only [Function.comp_apply]
  rw [Bool.eq_iff_iff, List.contains_iff_mem, List.contains_iff_mem,
    List.mem_map_of_injective c.injective]

variable {prog prog' : Prog} {lf lf' : FunDef → Lower Callee}
  (linked : Linked c T prog prog' lf lf')

include builds linked

set_option linter.unusedSectionVars false

mutual

theorem lowerStms_alike : ∀ (stms : List Stm) (ctx ctx' : Ctx), c.Renames ctx ctx' →
    Lower.Alike c T c.Renames (lowerStms cfg prog lf stms ctx)
      (lowerStms cfg' prog' lf' (renameStms c.rename stms) ctx')
  | [], ctx, ctx', env => by
    unfold renameStms lowerStms
    exact .pure env
  | stm :: rest, ctx, ctx', env => by
    unfold renameStms lowerStms
    exact .bind (lowerStm_alike stm ctx ctx' env) fun _ _ env => lowerStms_alike rest _ _ env

theorem lowerKernelStms_alike : ∀ (stms : List Stm) (skip : List VName) (ctx ctx' : Ctx),
    c.Renames ctx ctx' → Lower.Alike c T c.Renames (lowerKernelStms cfg prog lf stms skip ctx)
      (lowerKernelStms cfg' prog' lf' (renameStms c.rename stms) (skip.map c.rename) ctx')
  | [], skip, ctx, ctx', env => by
    unfold renameStms lowerKernelStms
    exact .pure env
  | stm :: rest, skip, ctx, ctx', env => by
    have skips := skips_rename (c := c) stm skip
    unfold renameStms lowerKernelStms
    by_cases skipped : (stm.pat.map PatElem.name).any skip.contains = true
    · rw [if_pos skipped, if_pos (skips.trans skipped)]
      exact lowerKernelStms_alike rest skip ctx ctx' env
    · rw [if_neg skipped, if_neg fun h => skipped (skips.symm.trans h)]
      exact .bind (lowerStm_alike stm ctx ctx' env) fun _ _ env =>
        lowerKernelStms_alike rest skip _ _ env

theorem lowerStm_alike : ∀ (stm : Stm) (ctx ctx' : Ctx), c.Renames ctx ctx' →
    Lower.Alike c T c.Renames (lowerStm cfg prog lf stm ctx)
      (lowerStm cfg' prog' lf' (stm.rename c.rename) ctx')
  | .mk pat exp, ctx, ctx', env => by
    unfold Stm.rename lowerStm
    refine .bind (.recording (lowerExp_alike exp ctx ctx' env)) ?_
    rintro ⟨vs, after⟩ ⟨_, after'⟩ ⟨rfl, inner⟩
    refine .bind (.emit (.lift (zipEqual_renames builds PatElem.name (PatElem.rename c.rename)
      (fun _ => rfl) inner pat vs))) fun ps qs bound => ?_
    exact .pure bound

theorem lowerBody_alike : ∀ (body : Body) (ctx ctx' : Ctx), c.Renames ctx ctx' →
    Lower.Alike c T (WithSame c.Renames) (lowerBody cfg prog lf body ctx)
      (lowerBody cfg' prog' lf' (body.rename c.rename) ctx')
  | .mk stms result, ctx, ctx', env => by
    unfold Body.rename lowerBody
    refine .bind (lowerStms_alike stms ctx ctx' env) fun _ _ inner => ?_
    exact .next (.emit (lowerSubExps_alike inner result)) fun results => .pure ⟨rfl, inner⟩

theorem lowerExp_alike : ∀ (exp : Exp) (ctx ctx' : Ctx), c.Renames ctx ctx' →
    Lower.Alike c T (WithSame c.Renames) (lowerExp cfg prog lf exp ctx)
      (lowerExp cfg' prog' lf' (exp.rename c.rename) ctx')
  | .basicOp op, ctx, ctx', env => by
    unfold Exp.rename lowerExp
    exact .next (.emit (lowerBasicOp_alike builds env op)) fun v => .pure ⟨rfl, env⟩
  | .subExp se, ctx, ctx', env => by
    unfold Exp.rename lowerExp
    exact .next (.emit (lowerSubExp_alike env se)) fun v => .pure ⟨rfl, env⟩
  | .apply fname args retTypes, ctx, ctx', env => by
    unfold Exp.rename lowerExp
    exact .next (lowerApply_alike builds linked env fname args retTypes) fun vs => .pure ⟨rfl, env⟩
  | .ite cond thenBody elseBody retType, ctx, ctx', env => by
    unfold Exp.rename lowerExp
    refine .next (.emit (lowerSubExp_alike env cond)) fun v => ?_
    refine .bind (.lowerBlock _ fun _ => lowerBody_alike thenBody ctx ctx' env) ?_
    rintro ⟨thenBlock, ctx⟩ ⟨_, ctx'⟩ ⟨rfl, env⟩
    refine .bind (.lowerBlock _ fun _ => lowerBody_alike elseBody ctx ctx' env) ?_
    rintro ⟨elseBlock, ctx⟩ ⟨_, ctx'⟩ ⟨rfl, env⟩
    exact .next (.emit (.create _ _ _ _)) fun vs => .pure ⟨rfl, env⟩
  | .loop merge form body, ctx, ctx', env => by
    unfold Exp.rename lowerExp
    exact .next (lowerLoop_alike builds (lowerBody_alike body) env merge form) fun vs =>
      .pure ⟨rfl, env⟩
  | .hostOp op, ctx, ctx', env => by
    unfold Exp.rename lowerExp
    exact .next (lowerHostOp_alike op ctx ctx' env) fun vs => .pure ⟨rfl, env⟩

theorem lowerHostOp_alike : ∀ (op : HostOp) (ctx ctx' : Ctx), c.Renames ctx ctx' →
    Lower.Alike c T Eq (lowerHostOp cfg prog lf op ctx)
      (lowerHostOp cfg' prog' lf' (op.rename c.rename) ctx')
  | .segOp op, ctx, ctx', env => by
    unfold HostOp.rename lowerHostOp
    exact lowerSegOp_alike op ctx ctx' env
  | .sizeOp, ctx, ctx', env => by
    unfold HostOp.rename lowerHostOp
    exact .lowerUndefined
  | .gpuBody, ctx, ctx', env => by
    unfold HostOp.rename lowerHostOp
    exact .lowerUndefined

theorem lowerSegOp_alike : ∀ (op : SegOp) (ctx ctx' : Ctx), c.Renames ctx ctx' →
    Lower.Alike c T Eq (lowerSegOp cfg prog lf op ctx)
      (lowerSegOp cfg' prog' lf' (op.rename c.rename) ctx')
  | .segMap lvl space ret (.mk stms result), ctx, ctx', env => by
    unfold SegOp.rename Body.rename lowerSegOp
    exact lowerSegMap_alike builds (lowerKernelStms_alike stms) env lvl space stms result ret
  | .segRed lvl space ret (.mk stms result) [.mk (.mk params lambdaRet body) neutral shape],
      ctx, ctx', env => by
    simp only [SegOp.rename, Body.rename, renameSegBinOps, SegBinOp.rename, Lambda.rename]
    unfold lowerSegOp
    exact lowerSegRed_alike builds (lowerKernelStms_alike stms) (lowerBody_alike body) env lvl
      space stms result params lambdaRet neutral shape
  | .segRed lvl space ret (.mk stms result) [], ctx, ctx', env => by
    simp only [SegOp.rename, Body.rename, renameSegBinOps]
    unfold lowerSegOp
    exact .lowerUndefined
  | .segRed lvl space ret (.mk stms result) (.mk (.mk _ _ _) _ _ :: _ :: _), ctx, ctx', env => by
    simp only [SegOp.rename, Body.rename, renameSegBinOps, SegBinOp.rename, Lambda.rename]
    unfold lowerSegOp
    exact .lowerUndefined
  | .segScan lvl space ret (.mk stms result) [.mk (.mk params lambdaRet body) neutral shape]
      (.mk postParams postRet postBody), ctx, ctx', env => by
    simp only [SegOp.rename, Body.rename, renameSegBinOps, SegBinOp.rename, Lambda.rename]
    unfold lowerSegOp
    exact lowerSegScan_alike builds (lowerKernelStms_alike stms) (lowerBody_alike body)
      (lowerBody_alike postBody) env lvl space result ret params neutral shape postParams
  | .segScan lvl space ret (.mk stms result) [] (.mk postParams postRet postBody),
      ctx, ctx', env => by
    simp only [SegOp.rename, Body.rename, renameSegBinOps, Lambda.rename]
    unfold lowerSegOp
    exact .lowerUndefined
  | .segScan lvl space ret (.mk stms result) (.mk (.mk _ _ _) _ _ :: _ :: _)
      (.mk postParams postRet postBody), ctx, ctx', env => by
    simp only [SegOp.rename, Body.rename, renameSegBinOps, SegBinOp.rename, Lambda.rename]
    unfold lowerSegOp
    exact .lowerUndefined
  | .segHist lvl space ret (.mk stms result) [.mk dest (.mk params lambdaRet body)],
      ctx, ctx', env => by
    simp only [SegOp.rename, Body.rename, renameHistOps, HistOp.rename, Lambda.rename]
    unfold lowerSegOp
    exact lowerSegHist_alike builds (lowerKernelStms_alike stms) (lowerBody_alike body) env lvl
      space stms result ret [(dest, params)]
  | .segHist lvl space ret (.mk stms result) [], ctx, ctx', env => by
    simp only [SegOp.rename, Body.rename, renameHistOps]
    unfold lowerSegOp
    exact lowerSegHist_alike builds (lowerKernelStms_alike stms) (fun _ _ _ => .lowerUndefined) env
      lvl space stms result ret []
  | .segHist lvl space ret (.mk stms result) (.mk _ (.mk _ _ _) :: _ :: _), ctx, ctx', env => by
    simp only [SegOp.rename, Body.rename, renameHistOps, HistOp.rename, Lambda.rename]
    unfold lowerSegOp
    exact lowerSegHist_alike builds (lowerKernelStms_alike stms) (fun _ _ _ => .lowerUndefined) env
      lvl space stms result ret []

end

end Expressions

end FutharkMlir
