import FutharkMlir.Scoping.Hoisting
import FutharkMlir.Scoping.Mapped

/-! The lengths that the kernel lowerings rely on. A build with assertions checks them where
a release build goes on, so both are run side by side, with the lowering of a statement and
of an operator's body left open. -/
namespace FutharkMlir

def Config.debug (cfg : Config) : Config := { cfg with asserts := true }

def Config.release (cfg : Config) : Config := { cfg with asserts := false }

section Lowering

variable (cfg : Config) (lowerStm : Stm → Ctx → Lower Ctx)
  (lowerBody : Body → Ctx → Lower (List Value × Ctx))

/-- The loop of `LowerSegOpKernelBody` over the statements, with its assertion. -/
def lowerCheckedStms : List Stm → List VName → Ctx → Lower Ctx
  | [], _, ctx => return ctx
  | stm :: rest, skipLowering, ctx => do
    assertThat cfg (stm.pat.length == 1)
    if (stm.pat.map PatElem.name).any skipLowering.contains then
      lowerCheckedStms rest skipLowering ctx
    else
      let ctx ← lowerStm stm ctx
      lowerCheckedStms rest skipLowering ctx

/-- The operations that become a `linalg.generic`. -/
def lowerKernel : SegOp → Ctx → Lower (List Value)
  | .segMap lvl space ret (.mk stms result), ctx =>
    lowerSegMap cfg lvl space stms result ret (lowerCheckedStms cfg lowerStm stms) ctx
  | .segRed lvl space _ (.mk stms result) ops, ctx =>
    match ops with
    | [.mk (.mk params lambdaRet body) neutral shape] =>
      lowerSegRed cfg lvl space stms result params lambdaRet neutral shape
        (lowerCheckedStms cfg lowerStm stms) (lowerBody body) ctx
    | _ => Lower.undefined
  | .segHist lvl space ret (.mk stms result) ops, ctx =>
    match ops with
    | [.mk dest (.mk params _ body)] =>
      lowerSegHist cfg lvl space stms result ret [(dest, params)]
        (lowerCheckedStms cfg lowerStm stms) (lowerBody body) ctx
    | _ =>
      lowerSegHist cfg lvl space stms result ret [] (lowerCheckedStms cfg lowerStm stms)
        (fun _ => Lower.undefined) ctx
  | .segScan .., _ => Lower.undefined

end Lowering

theorem Lower.bind_except {α β : Type} {x : Except Err α} {a : α} (h : x = .ok a)
    (f : α → Lower β) : (liftM x >>= f) = f a := by
  subst h
  ext s
  rfl

/-- Where every pattern has one name, the loop is the one of the compiler. -/
theorem lowerCheckedStms_eq (cfg : Config) (prog : Prog) (lf : FunDef → Lower Callee)
    {stms : List Stm} (single : ∀ stm ∈ stms, stm.pat.length = 1) :
    lowerCheckedStms cfg (lowerStm cfg prog lf) stms = lowerKernelStms cfg prog lf stms := by
  induction stms with
  | nil =>
    funext skip ctx
    simp only [lowerCheckedStms, lowerKernelStms]
  | cons stm rest ih =>
    obtain ⟨one, others⟩ := List.forall_mem_cons.mp single
    funext skip ctx
    simp only [lowerCheckedStms, lowerKernelStms, ih others]
    exact Lower.bind_except (assertThat_true cfg (by simp [one])) _

/-- Over the compiler's own lowering of statements and bodies, this is `LowerSegOp`. -/
theorem lowerKernel_eq (cfg : Config) (prog : Prog) (lf : FunDef → Lower Callee) {op : SegOp}
    {space : SegSpace} {stms : List Stm} (kernel : op.hoisted = some (space, stms))
    (single : ∀ stm ∈ stms, stm.pat.length = 1) (ctx : Ctx) :
    lowerKernel cfg (lowerStm cfg prog lf) (lowerBody cfg prog lf) op ctx =
      lowerSegOp cfg prog lf op ctx := by
  cases op with
  | segMap lvl space ret body =>
    obtain ⟨stms, result⟩ := body
    cases kernel
    simp only [lowerKernel, lowerSegOp, lowerCheckedStms_eq cfg prog lf single]
  | segRed lvl space ret body ops =>
    obtain ⟨stms, result⟩ := body
    cases kernel
    rcases ops with _ | ⟨⟨⟨params, lambdaRet, body⟩, neutral, shape⟩, _ | ⟨op, ops⟩⟩ <;>
      simp only [lowerKernel, lowerSegOp, lowerCheckedStms_eq cfg prog lf single]
  | segScan => cases kernel
  | segHist lvl space ret body ops =>
    obtain ⟨stms, result⟩ := body
    cases kernel
    rcases ops with _ | ⟨⟨dest, ⟨params, lambdaRet, body⟩⟩, _ | ⟨op, ops⟩⟩ <;>
      simp only [lowerKernel, lowerSegOp, lowerCheckedStms_eq cfg prog lf single]

theorem lowerCheckedStms_builds (cfg : Config) (lowerStm : Stm → Ctx → Lower Ctx)
    {stms : List Stm} (single : ∀ stm ∈ stms, stm.pat.length = 1) :
    lowerCheckedStms cfg.debug lowerStm stms = lowerCheckedStms cfg.release lowerStm stms := by
  induction stms with
  | nil =>
    funext skip ctx
    simp only [lowerCheckedStms]
  | cons stm rest ih =>
    obtain ⟨one, others⟩ := List.forall_mem_cons.mp single
    have holds : ∀ cfg, assertThat cfg (stm.pat.length == 1) = .ok () :=
      fun cfg => assertThat_true cfg (by simp [one])
    funext skip ctx
    simp only [lowerCheckedStms, ih others, holds]

theorem findSegOpAffineReads_single {iterSpace : IterationSpace} {stms : List Stm}
    {reads : List AffineRead} (h : findSegOpAffineReads iterSpace stms = .ok reads) :
    ∀ stm ∈ stms, stm.pat.length = 1 := by
  induction stms generalizing reads with
  | nil => simp
  | cons stm rest ih =>
    obtain ⟨pat, exp⟩ := stm
    match pat with
    | [] => cases h
    | [elem] =>
      obtain ⟨reads', found, _⟩ := Except.bind_eq_ok.mp h
      exact List.forall_mem_cons.mpr ⟨rfl, ih found⟩
    | _ :: _ :: _ => cases h

theorem mapM_returns {α β : Type} (f : α → Emit β) (xs : List α) :
    (xs.mapM f).Returns fun ys => ys.length = xs.length :=
  (Tracked.Returns.mapM (R := fun _ _ => True) (fun _ => .any _) xs).weaken
    fun _ hys => hys.length_eq.symm

theorem zipEqual_debug {α β : Type} (cfg : Config) {xs : List α} {ys : List β}
    (h : xs.length ≠ ys.length) : zipEqual cfg.debug xs ys = .error .assertion := by
  rw [zipEqual, if_neg h]
  rfl

theorem Lower.inBlock_congr {α : Type} {argTys : List MlirTy}
    {f g : List Value → Lower (List Value × α)}
    (h : ∀ args, args.length = argTys.length → f args = g args) :
    Lower.inBlock argTys f = Lower.inBlock argTys g := by
  ext s
  simp only [Lower.inBlock, h _ (freshValues_length _ _ _)]

theorem Lower.inBlock_stops {α : Type} {e : Stop} {argTys : List MlirTy}
    {f g : List Value → Lower (List Value × α)}
    (h : ∀ args, args.length = argTys.length → Tracked.Stops e (f args) (g args)) :
    Tracked.Stops e (Lower.inBlock argTys f) (Lower.inBlock argTys g) := by
  intro s p run
  simp only [Lower.inBlock] at run ⊢
  split at run
  · next yield a inner hrun =>
    rw [h _ (freshValues_length _ _ _) _ _ hrun]
  · cases run

section Body

variable {cfg : Config} {lowerStm : Stm → Ctx → Lower Ctx} {blockArgs : List Value}
  {reads : List AffineRead} {iterSpace : IterationSpace} {stms : List Stm}
  {result : List SubExp} {ctx : Ctx}

theorem lowerSegOpKernelBody_builds (single : ∀ stm ∈ stms, stm.pat.length = 1)
    (length : reads.length = blockArgs.length) :
    lowerSegOpKernelBody cfg.debug blockArgs reads iterSpace
        (lowerCheckedStms cfg.debug lowerStm stms) result ctx =
      lowerSegOpKernelBody cfg.release blockArgs reads iterSpace
        (lowerCheckedStms cfg.release lowerStm stms) result ctx := by
  simp only [lowerSegOpKernelBody, lowerCheckedStms_builds cfg lowerStm single,
    zipEqual_of_length _ length]

theorem lowerSegOpKernelBody_stops (length : reads.length ≠ blockArgs.length)
    {stms stms' : List VName → Ctx → Lower Ctx} :
    Tracked.Stops (.thrown .assertion)
      (lowerSegOpKernelBody cfg.debug blockArgs reads iterSpace stms result ctx)
      (lowerSegOpKernelBody cfg.release blockArgs reads iterSpace stms' result ctx) := by
  unfold lowerSegOpKernelBody
  rw [zipEqual_debug cfg length]
  exact .bind (.throw _ _)

theorem lowerSegOpKernelBody_returns {stms : List VName → Ctx → Lower Ctx} :
    (lowerSegOpKernelBody cfg blockArgs reads iterSpace stms result ctx).Returns
      fun r => r.1.length = result.length := by
  unfold lowerSegOpKernelBody
  refine .bind (.any _) fun pairs _ => .bind (.any _) fun ctx₁ _ => ?_
  refine .bind (.any _) fun ctx₂ _ => ?_
  exact .bind (Lower.lift_returns (mapM_returns _ _)) fun returns length => .pure length

end Body

section Operations

variable {cfg : Config} {lowerStm lowerStm' : Stm → Ctx → Lower Ctx} {lvl : SegLevel}
  {space : SegSpace} {stms : List Stm} {result neutral shape : List SubExp}
  {ret lambdaRet : List Ty} {params : List Param}
  {lowerLambda lowerLambda' : Ctx → Lower (List Value × Ctx)} {ctx : Ctx}

/-- The block arguments are as many as the affine reads and the outputs. -/
theorem blockArgs_length {reads : List AffineRead} {inputs outputs args : List Value}
    (found : inputs.length = (reads.map AffineRead.array).length)
    (h : args.length = ((inputs ++ outputs).map fun v => v.ty.elemOrSelf).length) :
    args.length = reads.length + outputs.length := by
  simp only [List.length_map, List.length_append] at found h
  omega

theorem lowerSegMap_builds (results : result.length = ret.length) (none : ret = []) :
    lowerSegMap cfg.debug lvl space stms result ret (lowerCheckedStms cfg.debug lowerStm stms) ctx =
      lowerSegMap cfg.release lvl space stms result ret
        (lowerCheckedStms cfg.release lowerStm stms) ctx := by
  unfold lowerSegMap
  refine Tracked.bind_congr (.any _) fun _ _ => Tracked.bind_congr (.any _) fun iterSpace _ => ?_
  refine Tracked.bind_congr (Lower.liftExcept_returns _) fun reads found => ?_
  refine Tracked.bind_congr (Lower.lift_returns (mapM_returns _ _)) fun inputs ins => ?_
  refine Tracked.bind_congr (Lower.liftExcept_returns _) fun tys types => ?_
  refine Tracked.bind_congr (.any _) fun sizes _ => ?_
  refine Tracked.bind_congr (Lower.lift_returns (mapM_returns _ _)) fun outputs outs => ?_
  rw [segOpTypes_length types, none] at outs
  rw [Lower.inBlock_congr fun args length => ?_]
  have args_length := blockArgs_length ins length
  rw [lowerSegOpKernelBody_builds (findSegOpAffineReads_single found)
    (by rw [args_length, outs]; rfl)]
  refine Tracked.bind_congr lowerSegOpKernelBody_returns fun r count => ?_
  have same : r.1.length = outputs.length := by rw [count, results, none, outs]
  simp only [assertThat_true _ (beq_iff_eq.mpr same)]

theorem lowerSegMap_stops (some : ret ≠ []) :
    Tracked.Stops (.thrown .assertion)
      (lowerSegMap cfg.debug lvl space stms result ret
        (lowerCheckedStms cfg.debug lowerStm stms) ctx)
      (lowerSegMap cfg.release lvl space stms result ret
        (lowerCheckedStms cfg.release lowerStm' stms) ctx) := by
  unfold lowerSegMap
  refine .after (.any _) fun _ _ => .after (.any _) fun iterSpace _ => ?_
  refine .after (.any _) fun reads _ => ?_
  refine .after (Lower.lift_returns (mapM_returns _ _)) fun inputs ins => ?_
  refine .after (Lower.liftExcept_returns _) fun tys types => .after (.any _) fun sizes _ => ?_
  refine .after (Lower.lift_returns (mapM_returns _ _)) fun outputs outs => ?_
  rw [segOpTypes_length types] at outs
  have positive := List.length_pos_iff.mpr some
  refine .bind (Lower.inBlock_stops fun args length => ?_)
  have args_length := blockArgs_length ins length
  exact .bind (lowerSegOpKernelBody_stops (by omega))

/-- The operator's parameters are as many as the accumulators and the kernel's results. -/
theorem bindOperands_builds {accs returns : List Value}
    (length : params.length = accs.length + returns.length) :
    bindOperands cfg.debug ctx params accs returns =
      bindOperands cfg.release ctx params accs returns := by
  have enough : ¬ params.length < accs.length := by omega
  have rest : (params.drop accs.length).length = returns.length := by
    rw [List.length_drop]
    omega
  simp only [bindOperands, assertThat_true _ (beq_iff_eq.mpr length), dropBegin, if_neg enough,
    bind, Except.bind, zipEqual_of_length _ rest]

theorem filledOutputs_length (cfg : Config) {tys : List MlirTy} {neutrals : List Value}
    {pairs : List (MlirTy × Value)} (same : tys.length = neutrals.length)
    (h : zipEqual cfg tys neutrals = .ok pairs) (sizes : List Value) :
    (filledOutputs sizes pairs).Returns fun outputs => outputs.length = tys.length := by
  refine (mapM_returns _ _).weaken fun outputs length => ?_
  rw [length, zipEqual_eq cfg h, List.length_zip]
  omega

theorem lowerSegRed_builds (neutrals : neutral.length = lambdaRet.length)
    (operands : params.length = lambdaRet.length + result.length) (none : lambdaRet = []) :
    lowerSegRed cfg.debug lvl space stms result params lambdaRet neutral shape
        (lowerCheckedStms cfg.debug lowerStm stms) lowerLambda ctx =
      lowerSegRed cfg.release lvl space stms result params lambdaRet neutral shape
        (lowerCheckedStms cfg.release lowerStm stms) lowerLambda ctx := by
  unfold lowerSegRed
  refine Tracked.bind_congr (.any _) fun _ _ => ?_
  split
  · rfl
  refine Tracked.bind_congr (Lower.lift_returns (mapM_returns _ _)) fun nvs nlength => ?_
  refine Tracked.bind_congr (.any _) fun iterSpace _ => ?_
  dsimp only
  split
  · rfl
  refine Tracked.bind_congr (Lower.liftExcept_returns _) fun reads found => ?_
  refine Tracked.bind_congr (Lower.lift_returns (mapM_returns _ _)) fun inputs ins => ?_
  refine Tracked.bind_congr (Lower.liftExcept_returns _) fun tys types => ?_
  have tylength := segOpTypes_length types
  refine Tracked.bind_congr (.any _) fun sizes _ => ?_
  have same : tys.length = nvs.length := by omega
  rw [zipEqual_of_length cfg.debug same, ← zipEqual_of_length cfg.release same]
  refine Tracked.bind_congr (Lower.liftExcept_returns _) fun pairs zipped => ?_
  refine Tracked.bind_congr (Lower.lift_returns (filledOutputs_length _ same zipped sizes))
    fun outputs outs => ?_
  have empty : outputs.length = 0 := by rw [outs, tylength, none]; rfl
  rw [Lower.inBlock_congr fun args length => ?_]
  have args_length := blockArgs_length ins length
  rw [lowerSegOpKernelBody_builds (findSegOpAffineReads_single found) (by omega)]
  refine Tracked.bind_congr lowerSegOpKernelBody_returns fun r count => ?_
  have accs : params.length = (args.drop inputs.length).length + r.1.length := by
    rw [List.length_map] at ins
    rw [List.length_drop, operands, none, count, args_length, empty, ins]
    simp
  simp only [bindOperands_builds accs]

theorem lowerSegRed_stops (neutrals : neutral.length = lambdaRet.length) (some : lambdaRet ≠ []) :
    Tracked.Stops (.thrown .assertion)
      (lowerSegRed cfg.debug lvl space stms result params lambdaRet neutral shape
        (lowerCheckedStms cfg.debug lowerStm stms) lowerLambda ctx)
      (lowerSegRed cfg.release lvl space stms result params lambdaRet neutral shape
        (lowerCheckedStms cfg.release lowerStm' stms) lowerLambda' ctx) := by
  unfold lowerSegRed
  refine .after (.any _) fun _ _ => ?_
  split
  · exact .never _ _ _
  refine .after (Lower.lift_returns (mapM_returns _ _)) fun nvs nlength => ?_
  refine .after (.any _) fun iterSpace _ => ?_
  dsimp only
  split
  · exact .never _ _ _
  refine .after (.any _) fun reads _ => ?_
  refine .after (Lower.lift_returns (mapM_returns _ _)) fun inputs ins => ?_
  refine .after (Lower.liftExcept_returns _) fun tys types => .after (.any _) fun sizes _ => ?_
  have tylength := segOpTypes_length types
  have same : tys.length = nvs.length := by omega
  have positive := List.length_pos_iff.mpr some
  rw [zipEqual_of_length cfg.debug same, ← zipEqual_of_length cfg.release same]
  refine .after (Lower.liftExcept_returns _) fun pairs zipped => ?_
  refine .after (Lower.lift_returns (filledOutputs_length _ same zipped sizes))
    fun outputs outs => ?_
  refine .bind (Lower.inBlock_stops fun args length => ?_)
  have args_length := blockArgs_length ins length
  exact .bind (lowerSegOpKernelBody_stops (by omega))

theorem lowerSegHist_builds (results : result.length = ret.length) (none : ret = [])
    (ops : List (List VName × List Param)) :
    lowerSegHist cfg.debug lvl space stms result ret ops
        (lowerCheckedStms cfg.debug lowerStm stms) lowerLambda ctx =
      lowerSegHist cfg.release lvl space stms result ret ops
        (lowerCheckedStms cfg.release lowerStm stms) lowerLambda ctx := by
  unfold lowerSegHist
  refine Tracked.bind_congr (.any _) fun _ _ => ?_
  rw [lowerSegMap_builds results none]
  refine Tracked.bind_congr (.any _) fun inputs _ => ?_
  split
  · next indices values destNames params =>
    refine Tracked.bind_congr (.any _) fun dests _ => ?_
    split
    · refine Tracked.bind_congr (.any _) fun ranked _ => ?_
      dsimp only
      split
      · rfl
      · refine Tracked.bind_congr (Lower.liftExcept_returns _) fun tys types => ?_
        have count : tys.length = params.length := (Except.mapM_eq_ok.mp types).length_eq.symm
        rw [Lower.inBlock_congr fun blk length => ?_]
        have same : params.length = blk.length := by omega
        rw [zipEqual_of_length cfg.debug same, zipEqual_of_length cfg.release same]
    · rfl
  · rfl

theorem lowerSegHist_stops (some : ret ≠ []) (ops : List (List VName × List Param)) :
    Tracked.Stops (.thrown .assertion)
      (lowerSegHist cfg.debug lvl space stms result ret ops
        (lowerCheckedStms cfg.debug lowerStm stms) lowerLambda ctx)
      (lowerSegHist cfg.release lvl space stms result ret ops
        (lowerCheckedStms cfg.release lowerStm' stms) lowerLambda' ctx) := by
  unfold lowerSegHist
  exact .after (.any _) fun _ _ => .bind (lowerSegMap_stops some)

end Operations

/-- The types of the outputs of the `linalg.generic`. -/
def SegOp.outputs : SegOp → List Ty
  | .segMap _ _ ret _ => ret
  | .segRed _ _ _ _ [.mk (.mk _ lambdaRet _) _ _] => lambdaRet
  | .segRed .. => []
  | .segScan .. => []
  | .segHist _ _ ret _ _ => ret

/-- A `SegMap`, `SegRed` or `SegHist` whose parts have matching lengths. -/
def SegOp.Matching : SegOp → Prop
  | .segMap _ _ ret (.mk _ result) => result.length = ret.length
  | .segRed _ _ _ (.mk _ result) ops =>
    ∀ params lambdaRet body neutral shape,
      ops = [.mk (.mk params lambdaRet body) neutral shape] →
        result.length = lambdaRet.length ∧ neutral.length = lambdaRet.length ∧
          params.length = lambdaRet.length + result.length
  | .segScan .. => False
  | .segHist _ _ ret (.mk _ result) _ => result.length = ret.length

def SegOp.operators : SegOp → List Body
  | .segRed _ _ _ _ [.mk (.mk _ _ body) _ _] => [body]
  | .segHist _ _ _ _ [.mk _ (.mk _ _ body)] => [body]
  | _ => []

section Builds

variable {cfg : Config} {lowerStm lowerStm' : Stm → Ctx → Lower Ctx}
  {lowerBody lowerBody' : Body → Ctx → Lower (List Value × Ctx)} {op : SegOp} {ctx : Ctx}
  {space : SegSpace} {stms : List Stm}

theorem lowerCheckedStms_congr (alike : ∀ stm ∈ stms, lowerStm stm = lowerStm' stm) :
    lowerCheckedStms cfg lowerStm stms = lowerCheckedStms cfg lowerStm' stms := by
  induction stms with
  | nil =>
    funext skip ctx
    simp only [lowerCheckedStms]
  | cons stm rest ih =>
    obtain ⟨here, others⟩ := List.forall_mem_cons.mp alike
    funext skip ctx
    simp only [lowerCheckedStms, ih others, here]

/-- Only the statements and the operators of the operation are lowered. -/
theorem lowerKernel_congr (kernel : op.hoisted = some (space, stms))
    (alike : ∀ stm ∈ stms, lowerStm stm = lowerStm' stm)
    (operators : ∀ body ∈ op.operators, lowerBody body = lowerBody' body) :
    lowerKernel cfg lowerStm lowerBody op ctx = lowerKernel cfg lowerStm' lowerBody' op ctx := by
  have same : lowerCheckedStms cfg lowerStm stms = lowerCheckedStms cfg lowerStm' stms :=
    lowerCheckedStms_congr alike
  cases op with
  | segMap lvl space ret body =>
    obtain ⟨stms, result⟩ := body
    cases kernel
    simp only [lowerKernel, same]
  | segRed lvl space ret body ops =>
    obtain ⟨stms, result⟩ := body
    cases kernel
    rcases ops with _ | ⟨⟨⟨params, lambdaRet, body⟩, neutral, shape⟩, _ | ⟨op, ops⟩⟩
    · rfl
    · simp only [lowerKernel, same, operators body (List.mem_singleton_self body)]
    · rfl
  | segScan => cases kernel
  | segHist lvl space ret body ops =>
    obtain ⟨stms, result⟩ := body
    cases kernel
    rcases ops with _ | ⟨⟨dest, ⟨params, lambdaRet, body⟩⟩, _ | ⟨op, ops⟩⟩
    · simp only [lowerKernel, same]
    · simp only [lowerKernel, same, operators body (List.mem_singleton_self body)]
    · simp only [lowerKernel, same]

theorem lowerKernel_builds (matching : op.Matching) (none : op.outputs = []) :
    lowerKernel cfg.debug lowerStm lowerBody op ctx =
      lowerKernel cfg.release lowerStm lowerBody op ctx := by
  cases op with
  | segMap lvl space ret body =>
    obtain ⟨stms, result⟩ := body
    exact lowerSegMap_builds matching none
  | segRed lvl space ret body ops =>
    obtain ⟨stms, result⟩ := body
    simp only [lowerKernel]
    split
    · obtain ⟨_, neutrals, operands⟩ := matching _ _ _ _ _ rfl
      exact lowerSegRed_builds neutrals operands none
    · rfl
  | segScan => rfl
  | segHist lvl space ret body ops =>
    obtain ⟨stms, result⟩ := body
    simp only [lowerKernel]
    split
    · exact lowerSegHist_builds matching none _
    · exact lowerSegHist_builds matching none _

theorem lowerKernel_stops (matching : op.Matching) (some : op.outputs ≠ []) :
    Tracked.Stops (.thrown .assertion) (lowerKernel cfg.debug lowerStm lowerBody op ctx)
      (lowerKernel cfg.release lowerStm' lowerBody' op ctx) := by
  cases op with
  | segMap lvl space ret body =>
    obtain ⟨stms, result⟩ := body
    exact lowerSegMap_stops some
  | segRed lvl space ret body ops =>
    obtain ⟨stms, result⟩ := body
    simp only [lowerKernel]
    split
    · obtain ⟨_, neutrals, _⟩ := matching _ _ _ _ _ rfl
      exact lowerSegRed_stops neutrals some
    · exact .never _ _ _
  | segScan => exact (some rfl).elim
  | segHist lvl space ret body ops =>
    obtain ⟨stms, result⟩ := body
    simp only [lowerKernel]
    split
    · exact lowerSegHist_stops some _
    · exact lowerSegHist_stops some _

/-- The two builds of the compiler lower an operation without outputs alike, if they lower what is
nested in it alike. -/
theorem lowerSegOp_builds (prog : Prog) {lf lf' : FunDef → Lower Callee} (matching : op.Matching)
    (none : op.outputs = []) (kernel : op.hoisted = some (space, stms))
    (single : ∀ stm ∈ stms, stm.pat.length = 1)
    (alike : ∀ stm ∈ stms, FutharkMlir.lowerStm cfg.debug prog lf stm =
      FutharkMlir.lowerStm cfg.release prog lf' stm)
    (operators : ∀ body ∈ op.operators, FutharkMlir.lowerBody cfg.debug prog lf body =
      FutharkMlir.lowerBody cfg.release prog lf' body) :
    lowerSegOp cfg.debug prog lf op ctx = lowerSegOp cfg.release prog lf' op ctx := by
  rw [← lowerKernel_eq _ _ _ kernel single, ← lowerKernel_eq _ _ _ kernel single,
    lowerKernel_builds matching none, lowerKernel_congr kernel alike operators]

/-- An operation whose own checks pass is lowered alike by the two builds, whatever the lowering
of its statements does, exactly if it has no output. So it is by the compiler's own lowering, if
this lowers what is nested in the operation alike. -/
theorem lengths_iff {s : Builder} (matching : op.Matching)
    (passes : ∃ lowerStm' lowerBody' p,
      (lowerKernel cfg.release lowerStm' lowerBody' op ctx).run s = .ok p) :
    (∀ lowerStm lowerBody, (lowerKernel cfg.release lowerStm lowerBody op ctx).run s ≠
        .error (.thrown .assertion) →
      ((lowerKernel cfg.debug lowerStm lowerBody op ctx).run s =
          (lowerKernel cfg.release lowerStm lowerBody op ctx).run s ↔ op.outputs = [])) ∧
    ∀ prog lf lf' space stms, op.hoisted = some (space, stms) →
      (∀ stm ∈ stms, stm.pat.length = 1) →
      (∀ stm ∈ stms, FutharkMlir.lowerStm cfg.debug prog lf stm =
        FutharkMlir.lowerStm cfg.release prog lf' stm) →
      (∀ body ∈ op.operators, FutharkMlir.lowerBody cfg.debug prog lf body =
        FutharkMlir.lowerBody cfg.release prog lf' body) →
      (lowerSegOp cfg.release prog lf' op ctx).run s ≠ .error (.thrown .assertion) →
      ((lowerSegOp cfg.debug prog lf op ctx).run s =
          (lowerSegOp cfg.release prog lf' op ctx).run s ↔ op.outputs = []) := by
  obtain ⟨stm, body, p, accepts⟩ := passes
  constructor
  · intro lowerStm lowerBody unasserted
    constructor
    · intro same
      by_contra some
      rw [lowerKernel_stops matching some s p accepts] at same
      exact unasserted same.symm
    · intro none
      rw [lowerKernel_builds matching none]
  · intro prog lf lf' space stms kernel single alike operators unasserted
    constructor
    · intro same
      by_contra some
      rw [← lowerKernel_eq cfg.debug prog lf kernel single,
        lowerKernel_stops matching some s p accepts] at same
      exact unasserted same.symm
    · intro none
      rw [lowerSegOp_builds prog matching none kernel single alike operators]

end Builds

def copyKernel : SegOp :=
  .segMap .thread ⟨"flat", [("i", .const (.createInt 4 64))]⟩ [.prim (.int .int64)]
    (.mk [.mk [⟨"x", .prim (.int .int64)⟩] (.basicOp (.index "xs" [.fix (.var "i")]))] [.var "x"])

def copyCtx : Ctx :=
  Ctx.empty.insert "xs" { func := "main", id := 0, ty := .tensor [4] (.int 64) }

def copyBuilder : Builder := { ip := ⟨"main", 1, [], []⟩, functions := [], module := [] }

/-- The load is left out, so nothing else of the lowering is asked for. -/
theorem copyKernel_accepted : ∃ p, (lowerKernel releaseConfig.release
    (fun _ ctx => return ctx) (fun _ _ => Lower.undefined) copyKernel copyCtx).run copyBuilder =
      .ok p :=
  ⟨_, rfl⟩

/-- Its only statement, which no build lowers. -/
def copyStm : Stm := .mk [⟨"x", .prim (.int .int64)⟩] (.basicOp (.index "xs" [.fix (.var "i")]))

theorem lengths_iff_copy :
    (lowerKernel releaseConfig.debug (fun _ ctx => return ctx)
        (fun _ _ => Lower.undefined) copyKernel copyCtx).run copyBuilder ≠
      (lowerKernel releaseConfig.release (fun _ ctx => return ctx)
        (fun _ _ => Lower.undefined) copyKernel copyCtx).run copyBuilder ∧
    (lowerSegOp releaseConfig.debug ⟨[], []⟩ (fun _ => Lower.undefined) copyKernel
        copyCtx).run copyBuilder ≠
      (lowerSegOp releaseConfig.release ⟨[], []⟩ (fun _ => Lower.undefined) copyKernel
        copyCtx).run copyBuilder := by
  obtain ⟨p, accepted⟩ := copyKernel_accepted
  obtain ⟨anyLowering, compiler⟩ :=
    lengths_iff (show copyKernel.Matching from rfl) ⟨_, _, p, accepted⟩
  constructor
  · intro same
    have none := (anyLowering _ _ (by rw [accepted]; exact nofun)).mp same
    cases none
  · intro same
    have single : ∀ stm ∈ [copyStm], stm.pat.length = 1 := List.forall_mem_singleton.mpr rfl
    have alike : ∀ stm ∈ [copyStm],
        lowerStm releaseConfig.debug ⟨[], []⟩ (fun _ => Lower.undefined) stm =
          lowerStm releaseConfig.release ⟨[], []⟩ (fun _ => Lower.undefined) stm := by
      rw [List.forall_mem_singleton]
      funext ctx
      simp only [copyStm, lowerStm, lowerExp]
      refine Tracked.bind_congr (Lower.recording_returns (Q := fun p => p.1.length = 1)
        (.bind (.any _) fun v _ => .pure rfl)) fun p one => ?_
      have same : [(⟨"x", .prim (.int .int64)⟩ : PatElem)].length = p.1.length := one.symm
      simp only [zipEqual_of_length _ same]
    have kernel : copyKernel.hoisted =
        some (⟨"flat", [("i", .const (.createInt 4 64))]⟩, [copyStm]) := rfl
    have unasserted : (lowerSegOp releaseConfig.release ⟨[], []⟩ (fun _ => Lower.undefined)
        copyKernel copyCtx).run copyBuilder ≠ .error (.thrown .assertion) := by
      rw [← lowerKernel_eq _ _ _ kernel single]
      intro stopped
      cases stopped
    have none := (compiler _ _ _ _ _ kernel single alike (fun _ none => absurd none List.not_mem_nil)
      unasserted).mp same
    cases none

/-- The operation copies an array, and only a release build accepts it. -/
theorem lengths_copy : ¬ ∀ (cfg : Config) (lowerStm : Stm → Ctx → Lower Ctx)
    (lowerBody : Body → Ctx → Lower (List Value × Ctx)) (op : SegOp) (ctx : Ctx) (s : Builder),
    op.Matching → (∃ p, (lowerKernel cfg.release lowerStm lowerBody op ctx).run s = .ok p) →
      (lowerKernel cfg.debug lowerStm lowerBody op ctx).run s =
        (lowerKernel cfg.release lowerStm lowerBody op ctx).run s := by
  intro all
  have same := all releaseConfig _ _ copyKernel copyCtx copyBuilder rfl copyKernel_accepted
  obtain ⟨p, accepted⟩ := copyKernel_accepted
  have asserted : (lowerKernel releaseConfig.debug (fun _ ctx => return ctx)
      (fun _ _ => Lower.undefined) copyKernel copyCtx).run copyBuilder =
      .error (.thrown .assertion) := rfl
  rw [accepted, asserted] at same
  cases same

end FutharkMlir
