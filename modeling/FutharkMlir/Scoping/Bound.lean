import FutharkMlir.Kernels.Loads
import FutharkMlir.Lib.Zip
import FutharkMlir.Scoping.Frame
import FutharkMlir.Scoping.Lookups

/-! Lowering sequential code whose names are bound: an unbound name can only turn up in a
function that the code applies. -/
namespace FutharkMlir

mutual

/-- No segmented operation stands inside, as in the kernel of one that is at thread level. -/
def stmsSequential : List Stm → Bool
  | [] => true
  | .mk _ exp :: rest => exp.sequential && stmsSequential rest

def Body.sequential : Body → Bool
  | .mk stms _ => stmsSequential stms

def Exp.sequential : Exp → Bool
  | .basicOp _ => true
  | .subExp _ => true
  | .apply _ _ _ => true
  | .ite _ thenBody elseBody _ => thenBody.sequential && elseBody.sequential
  | .loop _ _ body => body.sequential
  | .hostOp _ => false

end

/-- If the lowering stops at an unbound name, lowering a callee did. -/
def Finds {α : Type} (lf : FunDef → Lower Callee) (m : Lower α) : Prop :=
  ∀ b name, m.run b = .error (.thrown (.unbound name)) →
    ∃ f b', (lf f).run b' = .error (.thrown (.unbound name))

namespace Finds

variable {α β : Type} {lf : FunDef → Lower Callee}

theorem pure (a : α) : Finds lf (Pure.pure a : Lower α) := fun _ _ stop => by cases stop

theorem undefined : Finds lf (Lower.undefined : Lower α) := fun _ _ stop => by cases stop

theorem ub : Finds lf (Lower.ub : Lower α) := fun _ _ stop => by cases stop

theorem bind {m : Lower α} {f : α → Lower β} {Q : α → Prop} (hm : Finds lf m)
    (returns : m.Returns Q) (hf : ∀ a, Q a → Finds lf (f a)) : Finds lf (m >>= f) := by
  intro b name stop
  rw [Tracked.run_bind] at stop
  cases run : m.run b with
  | error e =>
    rw [run] at stop
    cases stop
    exact hm b name run
  | ok p =>
    rw [run] at stop
    exact hf p.1 (returns b p.1 p.2 run) p.2 name stop

theorem lift {m : Emit α} (h : NoUnbound m) : Finds lf (liftM m : Lower α) := by
  intro b name stop
  change (Lower.ofEmit m).run b = _ at stop
  simp only [Lower.ofEmit] at stop
  split at stop
  · cases stop
  · rename_i e run
    cases stop
    exact (h.never b.ip name run).elim

theorem check {x : Except Err α} (h : NoUnboundErr x) : Finds lf (liftM x : Lower α) := by
  intro b name stop
  rw [Lower.run_liftExcept] at stop
  cases x with
  | error e =>
    cases stop
    exact (h.never name rfl).elim
  | ok a => cases stop

theorem inBlock {argTys : List MlirTy} {body : List Value → Lower (List Value × α)}
    (h : ∀ args, Finds lf (body args)) : Finds lf (Lower.inBlock argTys body) := by
  intro b name stop
  simp only [Lower.inBlock] at stop
  split at stop
  · cases stop
  · rename_i e run
    cases stop
    exact h _ _ name run

theorem recording {stm : Stm} {ctx : Ctx} {m : Lower (List Value × Ctx)} (h : Finds lf m) :
    Finds lf (Lower.recording stm ctx m) := by
  intro b name stop
  simp only [Lower.recording] at stop
  split at stop
  · cases stop
  · rename_i e run
    cases stop
    exact h b name run

end Finds

section Names

variable {names : List VName} {ctx c c' : Ctx} {xs ys : List VName}

theorem Rebinds.keeps (h : Rebinds xs c c') (bound : c.Binds names) : c'.Binds names := by
  intro x hx
  by_cases anew : x ∈ xs
  · exact h.bound x anew
  · rw [h.kept x anew]
    exact bound x hx

theorem Rebinds.binds (h : Rebinds xs c c') (sub : ys ⊆ xs) (bound : c.Binds (without names ys)) :
    c'.Binds names := by
  intro x hx
  by_cases anew : x ∈ xs
  · exact h.bound x anew
  · rw [h.kept x anew]
    exact bound x (mem_without.mpr ⟨hx, fun member => anew (sub member)⟩)

/-- A list and its values, paired in full: every name of the list is bound. -/
theorem Rebinds.zip {α : Type} {cfg : Config} (name : α → VName) {as : List α} {vs : List Value}
    {pairs : List (α × Value)} (zip : zipEqual cfg as vs = .ok pairs) (c : Ctx) :
    Rebinds (as.map name) c (c.insertAll (pairs.map fun p => (name p.1, p.2))) := by
  have rebinds := Rebinds.insertAll c (pairs.map fun p => (name p.1, p.2))
  have names : (pairs.map fun p => (name p.1, p.2)).map Prod.fst = as.map name := by
    rw [← (zipEqual_fst cfg zip).2, List.map_map, List.map_map]
    rfl
  rwa [names] at rebinds

end Names

variable {cfg : Config} {prog : Prog} {lf : FunDef → Lower Callee} {ctx : Ctx}

theorem lowerApply_finds {fname : String} {args : List SubExp} {retTypes : List Ty}
    (bound : ctx.Binds (subExpNames args)) :
    Finds lf (lowerApply cfg prog lf fname args retTypes ctx) := by
  have operands := lowerSubExps_noUnbound bound
  unfold lowerApply
  split
  · exact .bind (.lift operands) (.any _) fun vs _ => .lift inferInstance
  rename_i f _
  refine .bind (.check inferInstance) (.any _) fun tys _ => ?_
  refine .bind (fun b name stop => ⟨f, b, stop⟩) (.any _) fun callee _ => ?_
  refine .bind (.lift ?_) (.any _) fun returns _ => ?_
  · cases callee with
    | func sig =>
      unfold lowerCallee lowerCallArgs
      refine .bindCheck inferInstance fun pairs zip => .bind (.mapM fun p member => ?_) fun vs => ?_
      · have named : p.1 ∈ args := (zipEqual_fst cfg zip).2 ▸ List.mem_map_of_mem member
        have operand := lowerSubExp_noUnbound (bound.flatMap named)
        infer_instance
      · infer_instance
    | blackBox b =>
      unfold lowerCallee
      infer_instance
  · exact .bind (.check inferInstance) (.any _) fun pairs _ => .lift inferInstance

theorem lowerLoop_finds {merge : List (Param × SubExp)} {form : LoopForm}
    {body : Ctx → Lower (List Value × Ctx)} {names : List VName}
    (inits : ctx.Binds (subExpNames (merge.map Prod.snd))) (bounds : ctx.Binds form.names)
    (free : ctx.Binds (without names (form.binders ++ mergeNames merge)))
    (inner : ∀ c, Ctx.Binds c names → Finds lf (body c)) :
    Finds lf (lowerLoop cfg merge form body ctx) := by
  cases form with
  | whileLoop c => exact .undefined
  | forLoop i t bound =>
    have upper := lowerSubExp_noUnbound bounds
    have typed : NoUnbound (loopInits merge ctx) := .mapM fun m member => by
      have init := lowerSubExp_noUnbound
        (inits.flatMap (List.mem_map_of_mem (f := Prod.snd) member))
      infer_instance
    unfold lowerLoop
    refine .bind (.lift typed) (.any _) fun typed _ => ?_
    refine .bind (.lift inferInstance) (.any _) fun lb _ => ?_
    refine .bind (.lift upper) (.any _) fun n _ => ?_
    refine .bind (.lift inferInstance) (.any _) fun ub _ => ?_
    refine .bind (.lift inferInstance) (.any _) fun step _ => ?_
    refine .bind (.inBlock fun args => ?_) (.any _) fun p _ => .lift inferInstance
    refine .bind (.check inferInstance) (.any _) fun iv _ => ?_
    refine .bind (.lift inferInstance) (.any _) fun counter _ => ?_
    refine .bind (.check inferInstance) (Lower.liftExcept_returns _) fun pairs zip => ?_
    refine .bind (inner _ ?_) (.any _) fun results _ => ?_
    · have counted : Rebinds [i] ctx (ctx.insert i counter) := Rebinds.insertAll ctx [(i, counter)]
      have merged := Rebinds.zip (fun m : Param × SubExp => m.1.name) zip (ctx.insert i counter)
      exact (counted.trans merged).binds (fun _ => id) free
    refine .bind (.check inferInstance) (.any _) fun typedResults _ => ?_
    exact .bind (.lift inferInstance) (.any _) fun yield _ => .pure _

section Syntax

variable (cfg prog lf)

theorem lowerStms_binds (stms : List Stm) (after : List VName) (ctx : Ctx)
    (bound : ctx.Binds (stmsFree after stms)) :
    (lowerStms cfg prog lf stms ctx).Returns fun c => c.Binds after := by
  induction stms generalizing ctx with
  | nil =>
    unfold lowerStms
    exact .pure bound
  | cons stm rest ih =>
    obtain ⟨pat, exp⟩ := stm
    unfold lowerStms
    refine .bind (lowerStm_rebinds cfg prog lf (.mk pat exp) ctx) fun c rebinds => ih c ?_
    exact rebinds.binds (List.subset_append_right _ _) (Ctx.Binds.append.mp bound).2

mutual

theorem lowerStms_finds : ∀ (stms : List Stm) (after : List VName) (ctx : Ctx),
    stmsSequential stms = true → ctx.Binds (stmsFree after stms) →
    Finds lf (lowerStms cfg prog lf stms ctx)
  | [], after, ctx, _, _ => by
    unfold lowerStms
    exact .pure ctx
  | .mk pat exp :: rest, after, ctx, seq, bound => by
    obtain ⟨seqExp, seqRest⟩ := Bool.and_eq_true_iff.mp seq
    obtain ⟨free, later⟩ := Ctx.Binds.append.mp bound
    unfold lowerStms
    refine .bind (lowerStm_finds (.mk pat exp) ctx seqExp free)
      (lowerStm_rebinds cfg prog lf (.mk pat exp) ctx) fun c rebinds => ?_
    exact lowerStms_finds rest after c seqRest (rebinds.binds (List.subset_append_right _ _) later)

theorem lowerStm_finds : ∀ (stm : Stm) (ctx : Ctx), stm.exp.sequential = true →
    ctx.Binds stm.exp.free → Finds lf (lowerStm cfg prog lf stm ctx)
  | .mk pat exp, ctx, seq, bound => by
    unfold lowerStm
    refine .bind (.recording (lowerExp_finds exp ctx seq bound)) (.any _) fun p _ => ?_
    exact .bind (.check inferInstance) (.any _) fun pairs _ => .pure _

theorem lowerBody_finds : ∀ (body : Body) (ctx : Ctx), body.sequential = true →
    ctx.Binds body.free → Finds lf (lowerBody cfg prog lf body ctx)
  | .mk stms result, ctx, seq, bound => by
    unfold lowerBody
    refine .bind (lowerStms_finds stms (subExpNames result) ctx seq bound)
      (lowerStms_binds cfg prog lf stms _ ctx bound) fun c results => ?_
    exact .bind (.lift (lowerSubExps_noUnbound results)) (.any _) fun vs _ => .pure _

theorem lowerExp_finds : ∀ (exp : Exp) (ctx : Ctx), exp.sequential = true →
    ctx.Binds exp.free → Finds lf (lowerExp cfg prog lf exp ctx)
  | .basicOp op, ctx, _, bound => by
    unfold lowerExp
    exact .bind (.lift (lowerBasicOp_noUnbound cfg bound)) (.any _) fun v _ => .pure _
  | .subExp se, ctx, _, bound => by
    unfold lowerExp
    exact .bind (.lift (lowerSubExp_noUnbound bound)) (.any _) fun v _ => .pure _
  | .apply fname args retTypes, ctx, _, bound => by
    unfold lowerExp
    exact .bind (lowerApply_finds bound) (.any _) fun vs _ => .pure _
  | .ite cond thenBody elseBody ret, ctx, seq, bound => by
    obtain ⟨seqThen, seqElse⟩ := Bool.and_eq_true_iff.mp seq
    obtain ⟨both, freeElse⟩ := Ctx.Binds.append.mp bound
    obtain ⟨condition, freeThen⟩ := Ctx.Binds.append.mp both
    unfold lowerExp
    refine .bind (.lift (lowerSubExp_noUnbound condition)) (.any _) fun c _ => ?_
    refine .bind (.inBlock fun _ => lowerBody_finds thenBody ctx seqThen freeThen)
      (Lower.inBlock_returns fun _ => lowerBody_rebinds cfg prog lf thenBody ctx) fun p left => ?_
    -- The names of the other branch are bound in what the first one leaves, too.
    refine .bind (.inBlock fun _ => lowerBody_finds elseBody p.2 seqElse (left.keeps freeElse))
      (.any _) fun q _ => ?_
    exact .bind (.lift inferInstance) (.any _) fun vs _ => .pure _
  | .loop merge form body, ctx, seq, bound => by
    obtain ⟨both, free⟩ := Ctx.Binds.append.mp bound
    obtain ⟨inits, bounds⟩ := Ctx.Binds.append.mp both
    unfold lowerExp
    refine .bind (lowerLoop_finds inits bounds free fun c inner => ?_) (.any _) fun vs _ => .pure _
    exact lowerBody_finds body c seq inner
  | .hostOp op, ctx, seq, _ => by cases seq

end

/-- The statements that are skipped are those of the loads, whose names are bound before. -/
theorem lowerKernelStms_finds (stms : List Stm) (after skip : List VName) (ctx : Ctx)
    (single : ∀ stm ∈ stms, ∃ elem exp, stm = .mk [elem] exp) (seq : stmsSequential stms = true)
    (skipped : ctx.Binds skip) (bound : ctx.Binds (stmsFree after stms)) :
    Finds lf (lowerKernelStms cfg prog lf stms skip ctx) ∧
    (lowerKernelStms cfg prog lf stms skip ctx).Returns fun c =>
      c.Binds after ∧ ∀ names, ctx.Binds names → c.Binds names := by
  induction stms generalizing ctx with
  | nil =>
    unfold lowerKernelStms
    exact ⟨.pure ctx, .pure ⟨bound, fun _ => id⟩⟩
  | cons stm rest ih =>
    rw [List.forall_mem_cons] at single
    obtain ⟨⟨elem, exp, rfl⟩, single⟩ := single
    obtain ⟨seqExp, seqRest⟩ := Bool.and_eq_true_iff.mp seq
    obtain ⟨free, later⟩ := Ctx.Binds.append.mp bound
    unfold lowerKernelStms
    split
    · rename_i skips
      refine ih ctx single seqRest skipped fun x hx => ?_
      by_cases anew : x = elem.name
      · refine skipped x (anew ▸ ?_)
        simpa [Stm.pat] using skips
      · exact later x (mem_without.mpr ⟨hx, by simpa using anew⟩)
    · have rebinds := lowerStm_rebinds cfg prog lf (.mk [elem] exp) ctx
      have rest := fun c (h : Rebinds (exp.leaks ++ [elem.name]) ctx c) =>
        ih c single seqRest (h.keeps skipped) (h.binds (List.subset_append_right _ _) later)
      refine ⟨.bind (lowerStm_finds cfg prog lf (.mk [elem] exp) ctx seqExp free) rebinds
        fun c h => (rest c h).1, .bind rebinds fun c h => (rest c h).2.weaken ?_⟩
      exact fun c' results => ⟨results.1, fun names held => results.2 names (h.keeps held)⟩

end Syntax

section Kernels

variable {space : SegSpace} {stms : List Stm} {result : List SubExp}
  {lowerLambda : Ctx → Lower (List Value × Ctx)}

instance (lvl : SegLevel) : NoUnboundErr (requireThreadLevel lvl) := by
  cases lvl <;> unfold requireThreadLevel <;> infer_instance

instance (iterSpace : IterationSpace) (stms : List Stm) :
    NoUnboundErr (findSegOpAffineReads iterSpace stms) := by
  induction stms with
  | nil => unfold findSegOpAffineReads; infer_instance
  | cons stm rest ih =>
    unfold findSegOpAffineReads
    split
    · infer_instance
    · rename_i head
      cases head
      infer_instance
    · infer_instance

instance (dims : List (VName × SubExp)) (ret : List Ty) : NoUnboundErr (segOpTypes dims ret) := by
  have base : ∀ t : Ty, NoUnboundErr (lowerSegOpBaseType t) := fun t => by
    unfold lowerSegOpBaseType
    split <;> infer_instance
  unfold segOpTypes
  infer_instance

instance (dims : List Dim) : NoUnbound (spaceSizes dims) := by
  unfold spaceSizes
  infer_instance

instance (sizes : List Value) (ps : List (MlirTy × Value)) : NoUnbound (filledOutputs sizes ps) := by
  unfold filledOutputs filledOutput
  infer_instance

instance (ds : IterationSpace) (ctx : Ctx) : NoUnbound (bindGtids ds ctx) := by
  induction ds generalizing ctx with
  | nil => unfold bindGtids; infer_instance
  | cons d ds ih => unfold bindGtids; infer_instance

instance (ctx : Ctx) (params : List Param) (accs returns : List Value) :
    NoUnboundErr (bindOperands cfg ctx params accs returns) := by
  unfold bindOperands dropBegin
  infer_instance

theorem lowerSegDims_noUnbound {dims : List (VName × SubExp)} (i : Nat)
    (bound : ctx.Binds (subExpNames (dims.map Prod.snd))) :
    NoUnbound (lowerSegDims ctx i dims) := by
  induction dims generalizing i with
  | nil => unfold lowerSegDims; infer_instance
  | cons d dims ih =>
    obtain ⟨first, rest⟩ := Ctx.Binds.append.mp bound
    have value := lowerSubExp_noUnbound first
    have others := ih (i + 1) rest
    unfold lowerSegDims
    infer_instance

theorem bindGtids_rebinds (ds : IterationSpace) :
    (bindGtids ds ctx).Returns (Rebinds (ds.map Dim.id) ctx) := by
  induction ds generalizing ctx with
  | nil =>
    unfold bindGtids
    exact .pure (.refl ctx)
  | cons d ds ih =>
    unfold bindGtids
    refine .bind (.any _) fun idx _ => .bind (.any _) fun val _ => ih.weaken fun c rest => ?_
    exact (Rebinds.insertAll ctx [(d.id, val)]).trans rest

/-- All parameters of the operator are bound: the first to the accumulators, the others to
the results of the kernel. -/
theorem bindOperands_rebinds {params : List Param} {accs returns : List Value} {c : Ctx}
    (bound : bindOperands cfg ctx params accs returns = .ok c) :
    Rebinds (paramNames params) ctx c := by
  simp only [bindOperands, Except.bind_eq_ok, Except.pure_eq_ok] at bound
  obtain ⟨_, _, rest, dropped, pairs, zip, rfl⟩ := bound
  unfold dropBegin at dropped
  split at dropped
  · cases dropped
  cases dropped
  have first := Rebinds.insertAll ctx ((params.zip accs).map fun p => (p.1.name, p.2))
  have others := Rebinds.zip Param.name zip (bindParams ctx params accs)
  have names : ((params.zip accs).map fun p => (p.1.name, p.2)).map Prod.fst ++
      (params.drop accs.length).map Param.name = paramNames params := by
    rw [List.map_map]
    change List.map (Param.name ∘ Prod.fst) _ ++ _ = _
    rw [← List.map_map, List.map_fst_zip_take, ← List.map_append, List.take_append_drop]
    rfl
  rw [← names]
  exact first.trans others

theorem lowerSegOpKernelBody_finds {blockArgs : List Value} {iterSpace : IterationSpace}
    {reads : List AffineRead} (names : Names 0 space.dims iterSpace)
    (found : findSegOpAffineReads iterSpace stms = .ok reads) (seq : stmsSequential stms = true)
    (bound : ctx.Binds (without (stmsFree (subExpNames result) stms) (space.dims.map Prod.fst))) :
    Finds lf (lowerSegOpKernelBody cfg blockArgs reads iterSpace (lowerKernelStms cfg prog lf stms)
      result ctx) ∧
    (lowerSegOpKernelBody cfg blockArgs reads iterSpace (lowerKernelStms cfg prog lf stms) result
      ctx).Returns fun p => ∀ names, ctx.Binds names → p.2.Binds names := by
  obtain ⟨_, single⟩ := names.findSegOpAffineReads_eq found
  have gtids : iterSpace.map Dim.id = space.dims.map Prod.fst := names.ids
  have inner := fun c (h : Rebinds (reads.map AffineRead.result ++ iterSpace.map Dim.id) ctx c) =>
    lowerKernelStms_finds cfg prog lf stms (subExpNames result) (reads.map AffineRead.result) c
      single seq (fun x hx => h.bound x (List.mem_append_left _ hx))
      (h.binds (gtids ▸ List.subset_append_right _ _) bound)
  unfold lowerSegOpKernelBody
  dsimp only
  constructor
  · refine .bind (.check inferInstance) (Lower.liftExcept_returns _) fun pairs zip => ?_
    refine .bind (.lift inferInstance) (Lower.lift_returns (bindGtids_rebinds _)) fun c indexed => ?_
    have kernel := inner c ((Rebinds.zip AffineRead.result zip ctx).trans indexed)
    refine .bind kernel.1 kernel.2 fun c results => ?_
    exact .bind (.lift (lowerSubExps_noUnbound results.1)) (.any _) fun vs _ => .pure _
  · refine .bind (Lower.liftExcept_returns _) fun pairs zip => ?_
    refine .bind (Lower.lift_returns (bindGtids_rebinds _)) fun c indexed => ?_
    have rebinds := (Rebinds.zip AffineRead.result zip ctx).trans indexed
    refine .bind (inner c rebinds).2 fun c results => .bind (.any _) fun vs _ => .pure ?_
    exact fun names held => results.2 names (rebinds.keeps held)

/-- The arrays of the loads at gtids are looked up where the kernel stands. -/
theorem readArrays_noUnbound {iterSpace : IterationSpace} {reads : List AffineRead}
    (names : Names 0 space.dims iterSpace) (found : findSegOpAffineReads iterSpace stms = .ok reads)
    (arrays : ctx.Binds ((space.affineReads stms).map AffineRead.array)) :
    NoUnbound (lookups ctx (reads.map AffineRead.array)) := by
  obtain ⟨rfl, _⟩ := names.findSegOpAffineReads_eq found
  exact lookups_noUnbound arrays

variable (seq : stmsSequential stms = true) (dims : ctx.Binds space.names)
  (arrays : ctx.Binds ((space.affineReads stms).map AffineRead.array))
  (bound : ctx.Binds (without (stmsFree (subExpNames result) stms) (space.dims.map Prod.fst)))
include seq dims arrays bound

theorem lowerSegMap_finds {lvl : SegLevel} {ret : List Ty} :
    Finds lf (lowerSegMap cfg lvl space stms result ret (lowerKernelStms cfg prog lf stms) ctx) := by
  unfold lowerSegMap
  refine .bind (.check inferInstance) (.any _) fun _ _ => ?_
  refine .bind (.lift (lowerSegDims_noUnbound 0 dims))
    (Lower.lift_returns (lowerSegDims_returns 0 space.dims)) fun iterSpace names => ?_
  refine .bind (.check inferInstance) (Lower.liftExcept_returns _) fun reads found => ?_
  refine .bind (.lift (readArrays_noUnbound names found arrays)) (.any _) fun inputs _ => ?_
  refine .bind (.check inferInstance) (.any _) fun tys _ => ?_
  refine .bind (.lift inferInstance) (.any _) fun sizes _ => ?_
  refine .bind (.lift inferInstance) (.any _) fun outputs _ => ?_
  refine .bind (.inBlock fun args => ?_) (.any _) fun p _ => .lift inferInstance
  refine .bind (lowerSegOpKernelBody_finds names found seq bound).1 (.any _) fun q _ => ?_
  exact .bind (.check inferInstance) (.any _) fun _ _ => .pure _

theorem lowerSegRed_finds {lvl : SegLevel} {params : List Param} {lambdaRet : List Ty}
    {neutral shape : List SubExp} {names : List VName} (neutrals : ctx.Binds (subExpNames neutral))
    (free : ctx.Binds (without names (paramNames params)))
    (lambda : ∀ c, Ctx.Binds c names → Finds lf (lowerLambda c)) :
    Finds lf (lowerSegRed cfg lvl space stms result params lambdaRet neutral shape
      (lowerKernelStms cfg prog lf stms) lowerLambda ctx) := by
  unfold lowerSegRed
  refine .bind (.check inferInstance) (.any _) fun _ _ => ?_
  split
  · exact .undefined
  refine .bind (.lift (lowerSubExps_noUnbound neutrals)) (.any _) fun vs _ => ?_
  refine .bind (.lift (lowerSegDims_noUnbound 0 dims))
    (Lower.lift_returns (lowerSegDims_returns 0 space.dims)) fun iterSpace dimNames => ?_
  dsimp only
  split
  · exact .undefined
  refine .bind (.check inferInstance) (Lower.liftExcept_returns _) fun reads found => ?_
  refine .bind (.lift (readArrays_noUnbound dimNames found arrays)) (.any _) fun inputs _ => ?_
  refine .bind (.check inferInstance) (.any _) fun tys _ => ?_
  refine .bind (.lift inferInstance) (.any _) fun sizes _ => ?_
  refine .bind (.check inferInstance) (.any _) fun pairs _ => ?_
  refine .bind (.lift inferInstance) (.any _) fun outputs _ => ?_
  refine .bind (.inBlock fun args => ?_) (.any _) fun p _ => .lift inferInstance
  have kernel : Finds lf (lowerSegOpKernelBody cfg args reads iterSpace
      (lowerKernelStms cfg prog lf stms) result ctx) ∧ _ :=
    lowerSegOpKernelBody_finds dimNames found seq bound
  refine .bind kernel.1 kernel.2 fun q held => ?_
  refine .bind (.check inferInstance) (Lower.liftExcept_returns _) fun c operands => ?_
  have inner := (bindOperands_rebinds operands).binds (fun _ => id) (held _ free)
  exact .bind (lambda c inner) (.any _) fun r _ => .pure _

theorem lowerSegHist_finds {lvl : SegLevel} {ret : List Ty} {ops : List (List VName × List Param)}
    {names : List VName} (dests : ∀ op ∈ ops, ctx.Binds op.1)
    (free : ∀ op ∈ ops, ctx.Binds (without names (paramNames op.2)))
    (lambda : ∀ c, Ctx.Binds c names → Finds lf (lowerLambda c)) :
    Finds lf (lowerSegHist cfg lvl space stms result ret ops (lowerKernelStms cfg prog lf stms)
      lowerLambda ctx) := by
  unfold lowerSegHist
  refine .bind (.check inferInstance) (.any _) fun _ _ => ?_
  refine .bind (lowerSegMap_finds seq dims arrays bound) (.any _) fun inputs _ => ?_
  split
  · rename_i destNames params
    refine .bind (.lift (lookups_noUnbound (dests _ List.mem_cons_self))) (.any _) fun vs _ => ?_
    split
    · refine .bind (.check inferInstance) (.any _) fun ranked _ => ?_
      dsimp only
      split
      · exact .undefined
      refine .bind (.check inferInstance) (.any _) fun tys _ => ?_
      refine .bind (.inBlock fun blk => ?_) (.any _) fun p _ => ?_
      · refine .bind (.check inferInstance) (Lower.liftExcept_returns _) fun pairs zip => ?_
        have inner := (Rebinds.zip Param.name zip ctx).binds (fun _ => id)
          (free _ List.mem_cons_self)
        exact .bind (lambda _ inner) (.any _) fun r _ => .pure _
      · refine .bind (.lift inferInstance) (.any _) fun res _ => ?_
        exact .bind (.check inferInstance) (.any _) fun first _ => .pure _
    · exact .undefined
  · exact .undefined

end Kernels

end FutharkMlir
