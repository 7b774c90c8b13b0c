import FutharkMlir.Compiler.Function

/-! The same lowering with two ways to look a callee up. One keeps a table of functions
and may lower the callee on the spot, the other keeps nothing. They insert the same
operations as long as the lookups agree. -/
namespace FutharkMlir

/-- From the same insertion point `m` and `n` give the same result and insert the same
operations, and `m` keeps the table in `I`; or `m` stops with an error that `n` stops
with too, unless it is `excused`. -/
def InStep {α : Type} (I : List FuncSig → List FuncOp → Prop) (excused : Err → Prop)
    (m n : Lower α) : Prop :=
  ∀ b c, I b.functions b.module → b.ip = c.ip →
    (∃ a b' c', m.run b = .ok (a, b') ∧ n.run c = .ok (a, c') ∧
      I b'.functions b'.module ∧ b'.ip = c'.ip) ∨
    ∃ e, m.run b = .error (.thrown e) ∧ (n.run c = .error (.thrown e) ∨ excused e)

namespace InStep

variable {α β : Type} {I : List FuncSig → List FuncOp → Prop} {excused : Err → Prop}

theorem pure (a : α) : InStep I excused (Pure.pure a) (Pure.pure a) :=
  fun b c table same => .inl ⟨a, b, c, rfl, rfl, table, same⟩

theorem throw (e : Err) : InStep I excused (Tracked.throw (.thrown e) : Lower α)
    (Tracked.throw (.thrown e)) :=
  fun _ _ _ _ => .inr ⟨e, rfl, .inl rfl⟩

theorem bind {m n : Lower α} {f g : α → Lower β} (h : InStep I excused m n)
    (k : ∀ a, InStep I excused (f a) (g a)) : InStep I excused (m >>= f) (n >>= g) := by
  intro b c table same
  rw [Tracked.run_bind, Tracked.run_bind]
  rcases h b c table same with ⟨a, b', c', hm, hn, table', same'⟩ | ⟨e, hm, hn⟩
  · rw [hm, hn]
    exact k a b' c' table' same'
  · rw [hm]
    refine .inr ⟨e, rfl, hn.imp_left fun hn => ?_⟩
    rw [hn]

theorem lift (m : Emit α) : InStep I excused (Lower.ofEmit m) (Lower.ofEmit m) := by
  intro b c table same
  simp only [Lower.ofEmit, same]
  cases m.run c.ip with
  | error e => exact .inr ⟨e, rfl, .inl rfl⟩
  | ok p => exact .inl ⟨p.1, _, _, rfl, rfl, table, rfl⟩

theorem inBlock {argTys : List MlirTy} {f g : List Value → Lower (List Value × α)}
    (h : ∀ args, InStep I excused (f args) (g args)) :
    InStep I excused (Lower.inBlock argTys f) (Lower.inBlock argTys g) := by
  intro b c table same
  simp only [Lower.inBlock, same]
  rcases h (freshValues c.ip.func c.ip.next argTys)
      { b with ip := { c.ip with next := c.ip.next + argTys.length, ops := [] } }
      { c with ip := { c.ip with next := c.ip.next + argTys.length, ops := [] } } table rfl with
    ⟨⟨yield, a⟩, b', c', hm, hn, table', same'⟩ | ⟨e, hm, hn⟩
  · simp only [hm, hn, same']
    exact .inl ⟨_, _, _, rfl, rfl, table', rfl⟩
  · rw [hm]
    refine .inr ⟨e, rfl, hn.imp_left fun hn => ?_⟩
    rw [hn]

theorem recording {stm : Stm} {ctx : Ctx} {m n : Lower (List Value × Ctx)}
    (h : InStep I excused m n) :
    InStep I excused (Lower.recording stm ctx m) (Lower.recording stm ctx n) := by
  intro b c table same
  simp only [Lower.recording]
  rcases h b c table same with
    ⟨⟨values, after⟩, b', c', hm, hn, table', same'⟩ | ⟨e, hm, hn⟩
  · simp only [hm, hn, same', same]
    exact .inl ⟨_, _, _, rfl, rfl, table', rfl⟩
  · rw [hm]
    refine .inr ⟨e, rfl, hn.imp_left fun hn => ?_⟩
    rw [hn]

end InStep

variable {I : List FuncSig → List FuncOp → Prop} {excused : Err → Prop} (cfg : Config)

section Kernels

variable {lowerStms lowerStms' : List VName → Ctx → Lower Ctx}
  {lowerOp lowerOp' lowerPost lowerPost' : Ctx → Lower (List Value × Ctx)}

theorem lowerSegOpKernelBody_inStep
    (stms : ∀ skip ctx, InStep I excused (lowerStms skip ctx) (lowerStms' skip ctx))
    (blockArgs : List Value) (reads : List AffineRead) (iterSpace : IterationSpace)
    (result : List SubExp) (ctx : Ctx) :
    InStep I excused
      (lowerSegOpKernelBody cfg blockArgs reads iterSpace lowerStms result ctx)
      (lowerSegOpKernelBody cfg blockArgs reads iterSpace lowerStms' result ctx) := by
  unfold lowerSegOpKernelBody
  refine .bind (.lift _) fun pairs => .bind (.lift _) fun ctx => ?_
  exact .bind (stms _ _) fun ctx => .bind (.lift _) fun returns => .pure _

theorem lowerSegMap_inStep
    (stms : ∀ skip ctx, InStep I excused (lowerStms skip ctx) (lowerStms' skip ctx))
    (lvl : SegLevel) (space : SegSpace) (body : List Stm) (result : List SubExp)
    (ret : List Ty) (ctx : Ctx) :
    InStep I excused (lowerSegMap cfg lvl space body result ret lowerStms ctx)
      (lowerSegMap cfg lvl space body result ret lowerStms' ctx) := by
  unfold lowerSegMap
  refine .bind (.lift _) fun _ => .bind (.lift _) fun iterSpace => .bind (.lift _) fun reads => ?_
  refine .bind (.lift _) fun inputs => .bind (.lift _) fun returnTypes => ?_
  refine .bind (.lift _) fun sizes => .bind (.lift _) fun outputs => ?_
  refine .bind (.inBlock fun args => ?_) fun p => .lift _
  refine .bind (lowerSegOpKernelBody_inStep cfg stms _ _ _ _ _) fun q => ?_
  exact .bind (.lift _) fun _ => .pure _

theorem lowerSegRed_inStep
    (stms : ∀ skip ctx, InStep I excused (lowerStms skip ctx) (lowerStms' skip ctx))
    (op : ∀ ctx, InStep I excused (lowerOp ctx) (lowerOp' ctx))
    (lvl : SegLevel) (space : SegSpace) (body : List Stm) (result : List SubExp)
    (params : List Param) (lambdaRet : List Ty) (neutral shape : List SubExp) (ctx : Ctx) :
    InStep I excused
      (lowerSegRed cfg lvl space body result params lambdaRet neutral shape lowerStms lowerOp ctx)
      (lowerSegRed cfg lvl space body result params lambdaRet neutral shape lowerStms' lowerOp'
        ctx) := by
  unfold lowerSegRed
  refine .bind (.lift _) fun _ => ?_
  split
  · exact .throw _
  refine .bind (.lift _) fun neutrals => .bind (.lift _) fun iterSpace => ?_
  dsimp only
  split
  · exact .throw _
  refine .bind (.lift _) fun reads => .bind (.lift _) fun inputs => ?_
  refine .bind (.lift _) fun returnTypes => .bind (.lift _) fun sizes => ?_
  refine .bind (.lift _) fun pairs => .bind (.lift _) fun outputs => ?_
  refine .bind (.inBlock fun args => ?_) fun p => .lift _
  refine .bind (lowerSegOpKernelBody_inStep cfg stms _ _ _ _ _) fun q => ?_
  exact .bind (.lift _) fun lambdaCtx => .bind (op _) fun r => .pure _

theorem lowerSegHist_inStep
    (stms : ∀ skip ctx, InStep I excused (lowerStms skip ctx) (lowerStms' skip ctx))
    (op : ∀ ctx, InStep I excused (lowerOp ctx) (lowerOp' ctx))
    (lvl : SegLevel) (space : SegSpace) (body : List Stm) (result : List SubExp)
    (ret : List Ty) (ops : List (List VName × List Param)) (ctx : Ctx) :
    InStep I excused (lowerSegHist cfg lvl space body result ret ops lowerStms lowerOp ctx)
      (lowerSegHist cfg lvl space body result ret ops lowerStms' lowerOp' ctx) := by
  unfold lowerSegHist
  refine .bind (.lift _) fun _ => ?_
  refine .bind (lowerSegMap_inStep cfg stms _ _ _ _ _ _) fun inputs => ?_
  split
  · refine .bind (.lift _) fun dests => ?_
    split
    · refine .bind (.lift _) fun ranked => ?_
      dsimp only
      split
      · exact .throw _
      refine .bind (.lift _) fun tys => .bind (.inBlock fun blk => ?_) fun p => ?_
      · exact .bind (.lift _) fun pairs => .bind (op _) fun r => .pure _
      · exact .bind (.lift _) fun res => .bind (.lift _) fun first => .pure _
    · exact .throw _
  · exact .throw _

theorem lowerScanStep_inStep
    (stms : ∀ skip ctx, InStep I excused (lowerStms skip ctx) (lowerStms' skip ctx))
    (op : ∀ ctx, InStep I excused (lowerOp ctx) (lowerOp' ctx))
    (post : ∀ ctx, InStep I excused (lowerPost ctx) (lowerPost' ctx))
    (s : ScanParts) (ctx : Ctx) (args : List Value) :
    InStep I excused (lowerScanStep cfg s lowerStms lowerOp lowerPost ctx args)
      (lowerScanStep cfg s lowerStms' lowerOp' lowerPost' ctx args) := by
  unfold lowerScanStep
  refine .bind (.lift _) fun scanIndex => .bind (.lift _) fun rows => .bind (.lift _) fun gtid => ?_
  refine .bind (stms _ _) fun kernelCtx => .bind (.lift _) fun kernelResults => ?_
  refine .bind (.lift _) fun lambdaCtx => .bind (op _) fun next => .bind (.lift _) fun bound => ?_
  split
  · exact .throw _
  refine .bind (post _) fun out => .bind (.lift _) fun elements => ?_
  exact .bind (.lift _) fun nextRows => .pure _

theorem lowerSegScan_inStep
    (stms : ∀ skip ctx, InStep I excused (lowerStms skip ctx) (lowerStms' skip ctx))
    (op : ∀ ctx, InStep I excused (lowerOp ctx) (lowerOp' ctx))
    (post : ∀ ctx, InStep I excused (lowerPost ctx) (lowerPost' ctx))
    (lvl : SegLevel) (space : SegSpace) (result : List SubExp) (ret : List Ty)
    (params : List Param) (neutral shape : List SubExp) (postParams : List Param) (ctx : Ctx) :
    InStep I excused
      (lowerSegScan cfg lvl space result ret params neutral shape postParams lowerStms lowerOp
        lowerPost ctx)
      (lowerSegScan cfg lvl space result ret params neutral shape postParams lowerStms' lowerOp'
        lowerPost' ctx) := by
  unfold lowerSegScan
  refine .bind (.lift _) fun _ => ?_
  split
  · exact .throw _
  refine .bind (.lift _) fun iterSpace => ?_
  split
  · exact .throw _
  refine .bind (.lift _) fun neutrals => .bind (.lift _) fun returnTypes => ?_
  refine .bind (.lift _) fun sizes => .bind (.lift _) fun outputs => .bind (.lift _) fun zero => ?_
  refine .bind (.lift _) fun one => .bind (.lift _) fun upper => .bind (.lift _) fun uppers => ?_
  refine .bind (.inBlock fun regionArgs => ?_) fun p => .bind (.lift _) fun results => .lift _
  refine .bind (.lift _) fun ctx' => .bind (.lift _) fun rows => .bind (.inBlock fun args => ?_) ?_
  · exact .bind (lowerScanStep_inStep cfg stms op post _ _ _) fun carry => .pure _
  intro loop
  refine .bind (.lift _) fun loopResults => .bind (.lift _) fun firstRow => ?_
  refine .bind (.lift _) fun ranked => .bind (.lift _) fun rowDim => ?_
  exact .bind (.lift _) fun inserts => .bind (.lift _) fun _ => .pure _

end Kernels

theorem lowerLoop_inStep {body body' : Ctx → Lower (List Value × Ctx)}
    (step : ∀ ctx, InStep I excused (body ctx) (body' ctx))
    (merge : List (Param × SubExp)) (form : LoopForm) (ctx : Ctx) :
    InStep I excused (lowerLoop cfg merge form body ctx) (lowerLoop cfg merge form body' ctx) := by
  cases form with
  | whileLoop c => exact .throw _
  | forLoop i t bound =>
    unfold lowerLoop
    refine .bind (.lift _) fun typed => .bind (.lift _) fun lb => .bind (.lift _) fun n => ?_
    refine .bind (.lift _) fun ub => .bind (.lift _) fun one => ?_
    refine .bind (.inBlock fun args => ?_) fun p => .lift _
    refine .bind (.lift _) fun iv => .bind (.lift _) fun counter => .bind (.lift _) fun pairs => ?_
    refine .bind (step _) fun results => .bind (.lift _) fun typedResults => ?_
    exact .bind (.lift _) fun yield => .pure _

variable {prog prog' : Prog} {lf lf' : FunDef → Lower Callee}

theorem lowerApply_inStep (found : ∀ x, findFunction prog x = findFunction prog' x)
    (callees : ∀ f ∈ prog.funs, InStep I excused (lf f) (lf' f))
    (fname : String) (args : List SubExp) (retTypes : List Ty) (ctx : Ctx) :
    InStep I excused (lowerApply cfg prog lf fname args retTypes ctx)
      (lowerApply cfg prog' lf' fname args retTypes ctx) := by
  unfold lowerApply
  rw [← found fname]
  cases h : findFunction prog fname with
  | none => exact .bind (.lift _) fun vs => .lift _
  | some f =>
    have member : f ∈ prog.funs := List.mem_of_find?_eq_some h
    refine .bind (.lift _) fun retTys => .bind (callees f member) fun callee => ?_
    exact .bind (.lift _) fun returns => .bind (.lift _) fun pairs => .lift _

section Syntax

set_option linter.unusedSectionVars false

variable (found : ∀ x, findFunction prog x = findFunction prog' x)
  (callees : ∀ f ∈ prog.funs, InStep I excused (lf f) (lf' f))
include found callees

mutual

theorem lowerStms_inStep : ∀ (stms : List Stm) (ctx : Ctx),
    InStep I excused (lowerStms cfg prog lf stms ctx) (lowerStms cfg prog' lf' stms ctx)
  | [], ctx => by
    unfold lowerStms
    exact .pure _
  | stm :: rest, ctx => by
    unfold lowerStms
    exact .bind (lowerStm_inStep stm ctx) fun ctx => lowerStms_inStep rest ctx

theorem lowerKernelStms_inStep : ∀ (stms : List Stm) (skip : List VName) (ctx : Ctx),
    InStep I excused (lowerKernelStms cfg prog lf stms skip ctx)
      (lowerKernelStms cfg prog' lf' stms skip ctx)
  | [], skip, ctx => by
    unfold lowerKernelStms
    exact .pure _
  | stm :: rest, skip, ctx => by
    unfold lowerKernelStms
    split
    · exact lowerKernelStms_inStep rest skip ctx
    · exact .bind (lowerStm_inStep stm ctx) fun ctx => lowerKernelStms_inStep rest skip ctx

theorem lowerStm_inStep : ∀ (stm : Stm) (ctx : Ctx),
    InStep I excused (lowerStm cfg prog lf stm ctx) (lowerStm cfg prog' lf' stm ctx)
  | .mk pat exp, ctx => by
    unfold lowerStm
    refine .bind (.recording (lowerExp_inStep exp ctx)) fun p => ?_
    exact .bind (.lift _) fun pairs => .pure _

theorem lowerBody_inStep : ∀ (body : Body) (ctx : Ctx),
    InStep I excused (lowerBody cfg prog lf body ctx) (lowerBody cfg prog' lf' body ctx)
  | .mk stms result, ctx => by
    unfold lowerBody
    refine .bind (lowerStms_inStep stms ctx) fun ctx => ?_
    exact .bind (.lift _) fun results => .pure _

theorem lowerExp_inStep : ∀ (exp : Exp) (ctx : Ctx),
    InStep I excused (lowerExp cfg prog lf exp ctx) (lowerExp cfg prog' lf' exp ctx)
  | .basicOp op, ctx => by
    unfold lowerExp
    exact .bind (.lift _) fun v => .pure _
  | .subExp se, ctx => by
    unfold lowerExp
    exact .bind (.lift _) fun v => .pure _
  | .apply fname args retTypes, ctx => by
    unfold lowerExp
    exact .bind (lowerApply_inStep cfg found callees fname args retTypes ctx) fun vs => .pure _
  | .ite cond thenBody elseBody _, ctx => by
    unfold lowerExp
    refine .bind (.lift _) fun c => .bind (.inBlock fun _ => lowerBody_inStep thenBody ctx) ?_
    intro p
    refine .bind (.inBlock fun _ => lowerBody_inStep elseBody p.2) fun q => ?_
    exact .bind (.lift _) fun vs => .pure _
  | .loop merge form body, ctx => by
    unfold lowerExp
    refine .bind (lowerLoop_inStep cfg (fun ctx => lowerBody_inStep body ctx) merge form ctx) ?_
    exact fun vs => .pure _
  | .hostOp op, ctx => by
    unfold lowerExp
    exact .bind (lowerHostOp_inStep op ctx) fun vs => .pure _

theorem lowerHostOp_inStep : ∀ (op : HostOp) (ctx : Ctx),
    InStep I excused (lowerHostOp cfg prog lf op ctx) (lowerHostOp cfg prog' lf' op ctx)
  | .segOp op, ctx => by
    unfold lowerHostOp
    exact lowerSegOp_inStep op ctx
  | .sizeOp, _ => by
    unfold lowerHostOp
    exact .throw _
  | .gpuBody, _ => by
    unfold lowerHostOp
    exact .throw _

theorem lowerSegOp_inStep : ∀ (op : SegOp) (ctx : Ctx),
    InStep I excused (lowerSegOp cfg prog lf op ctx) (lowerSegOp cfg prog' lf' op ctx)
  | .segMap lvl space ret (.mk stms result), ctx => by
    unfold lowerSegOp
    exact lowerSegMap_inStep cfg (lowerKernelStms_inStep stms) lvl space stms result ret ctx
  | .segRed lvl space _ (.mk stms result) ops, ctx => by
    unfold lowerSegOp
    match ops with
    | [] => exact .throw _
    | [.mk (.mk params lambdaRet body) neutral shape] =>
      exact lowerSegRed_inStep cfg (lowerKernelStms_inStep stms) (lowerBody_inStep body) _ _ _ _
        _ _ _ _ _
    | .mk (.mk _ _ _) _ _ :: _ :: _ => exact .throw _
  | .segScan lvl space ret (.mk stms result) ops (.mk postParams _ postBody), ctx => by
    unfold lowerSegOp
    match ops with
    | [] => exact .throw _
    | [.mk (.mk params _ body) neutral shape] =>
      exact lowerSegScan_inStep cfg (lowerKernelStms_inStep stms) (lowerBody_inStep body)
        (lowerBody_inStep postBody) _ _ _ _ _ _ _ _ _
    | .mk (.mk _ _ _) _ _ :: _ :: _ => exact .throw _
  | .segHist lvl space ret (.mk stms result) ops, ctx => by
    unfold lowerSegOp
    match ops with
    | [] =>
      exact lowerSegHist_inStep cfg (lowerKernelStms_inStep stms) (fun _ => .throw _) _ _ _ _ _ _ _
    | [.mk dest (.mk params _ body)] =>
      exact lowerSegHist_inStep cfg (lowerKernelStms_inStep stms) (lowerBody_inStep body) _ _ _ _ _ _ _
    | .mk _ (.mk _ _ _) :: _ :: _ =>
      exact lowerSegHist_inStep cfg (lowerKernelStms_inStep stms) (fun _ => .throw _) _ _ _ _ _ _ _

end

end Syntax

theorem lowerFunctionBody_inStep (found : ∀ x, findFunction prog x = findFunction prog' x)
    (consts : prog.consts = prog'.consts)
    (callees : ∀ f ∈ prog.funs, InStep I excused (lf f) (lf' f)) (f : FunDef)
    (args : List Value) :
    InStep I excused (lowerFunctionBody cfg prog lf f args)
      (lowerFunctionBody cfg prog' lf' f args) := by
  unfold lowerFunctionBody
  rw [← consts]
  refine .bind (lowerStms_inStep cfg found callees _ _) fun ctx => .bind (.lift _) fun pairs => ?_
  exact .bind (lowerBody_inStep cfg found callees _ _) fun ret => .pure _

end FutharkMlir
