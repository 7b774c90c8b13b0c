import FutharkMlir.Kernels.Lambda
import FutharkMlir.Kernels.Map

namespace FutharkMlir

variable {F : Type}

/-- One step of a reduction: the operator takes the accumulators and the results of the kernel
at a point. -/
def reduceStep (fl : FloatOps F) (call : String → List (FVal F) → Option (List (FVal F)))
    (space : SegSpace) (bounds : List (IntType × Nat)) (kernel : Body) (params : List Param)
    (body : Body) (ρ : Store F) (accs : List (FVal F)) (p : List Nat) :
    Option (List (FVal F)) := do
  let xs ← evalKernel fl call space bounds kernel ρ p
  evalLambda fl call params body ρ (accs ++ xs)

/-- The reduction at an outer index, over the last coordinate from zero on. -/
def evalReduction (fl : FloatOps F) (call : String → List (FVal F) → Option (List (FVal F)))
    (space : SegSpace) (bounds : List (IntType × Nat)) (kernel : Body) (params : List Param)
    (body : Body) (ρ : Store F) (neutral : List (FVal F)) (n : Nat) (o : List Nat) :
    Option (List (FVal F)) :=
  (List.range n).foldlM (fun accs j =>
    reduceStep fl call space bounds kernel params body ρ accs (o ++ [j])) neutral

/-- The parameters are bound to the accumulators and then to the results of the kernel. -/
theorem bindOperands_eq {cfg : Config} {ctx c : Ctx} {params : List Param}
    {accs returns : List Value} (h : bindOperands cfg ctx params accs returns = .ok c) :
    c = bindParams ctx params (accs ++ returns) := by
  simp only [bindOperands, Except.bind_eq_ok, Except.pure_eq_ok] at h
  obtain ⟨_, _, rest, dropped, pairs, zipped, rfl⟩ := h
  unfold dropBegin at dropped
  split at dropped
  · cases dropped
  rename_i enough
  cases dropped
  have split : params.zip (accs ++ returns) =
      params.zip accs ++ (params.drop accs.length).zip returns := by
    have first : (params.take accs.length).length = accs.length := by
      rw [List.length_take]
      omega
    have front : (params.take accs.length ++ params.drop accs.length).zip (accs ++ []) = _ :=
      List.zip_append first
    rw [List.take_append_drop, List.append_nil, List.zip_nil_right, List.append_nil] at front
    rw [front, ← List.zip_append first, List.take_append_drop]
  rw [zipEqual_eq cfg zipped, bindParams, bindParams, split, List.map_append,
    Ctx.insertAll_append]

section Block

variable (cfg : Config) {prog : Prog} {W : World F} {point : List Nat} {E : Env F} {ctx : Ctx}
  {Γ : Types} {ρ : Store F} {call : String → List (FVal F) → Option (List (FVal F))}
  {space : SegSpace} {bounds : List (IntType × Nat)} {stms : List Stm} {result : List SubExp}
  {params : List Param} {body : Body} {ts : List PrimType}

/-- A point of the domain, the accumulators there, and what the step makes of them. -/
def ReduceArgs (step : List (FVal F) → List Nat → Option (List (FVal F))) (extents : List Nat)
    (inputs : List (AffineMap × MVal F)) (ts : List PrimType)
    (i : List Nat × List (PVal F) × List (FVal F)) (point : List Nat) (vals : List (MVal F)) :
    Prop :=
  point = i.1 ∧ InBounds extents i.1 ∧ List.Forall₂ PVal.HasType i.2.1 ts ∧
    vals = inputsAt inputs i.1 ++ lowerAll i.2.1 ∧ step (i.2.1.map .prim) i.1 = some i.2.2

/-- The arguments of the block that follow those of the loads hold the accumulators. -/
theorem accumulators_computes {inputs outputs args : List Value} {extents p : List Nat}
    {reads : List AffineRead} {xs : List (MVal F)} {E₀ : Env F}
    (loaded : List.Forall₂ (Loaded Γ ρ extents E) reads inputs) (seen : inputs.mapM E = some xs)
    {shape : List Int} {elems : List ElemTy} (outTypes : outputs.map Value.ty = tensorTypes shape elems)
    (lowered : List.Forall₂ (fun t e => lowerPrimType t = .ok e) ts elems)
    {accs : List (PVal F)} (typed : List.Forall₂ PVal.HasType accs ts)
    (types : args.map Value.ty = (inputs ++ outputs).map fun v => v.ty.elemOrSelf)
    (values : args.mapM E₀ =
      some (inputsAt ((reads.map AffineRead.indexMap).zip xs) p ++ lowerAll accs)) :
    Computes E₀ (args.drop inputs.length) accs ts := by
  have length := inputsAt_length loaded seen p
  refine ⟨?_, typed, HasType.all.mpr ?_⟩
  · rw [List.mapM_eq_some] at values ⊢
    have last := List.forall₂_drop inputs.length values
    rwa [List.drop_left' length] at last
  · have scalars : (args.drop inputs.length).map Value.ty = elems.map .scalar := by
      rw [List.map_drop, types, List.map_append, List.drop_left' (List.length_map _)]
      have elemTypes := congrArg (List.map MlirTy.elemOrSelf) outTypes
      rw [List.map_map, tensorTypes, List.map_map] at elemTypes
      exact elemTypes
    rw [scalars, LowersTo, List.forall₂_map_left_iff]
    refine lowered.flip.imp fun e t h => ?_
    rw [lowerTy, h]
    rfl

/-- The block of a reduction yields what the operator makes of the accumulators and of the
results of the kernel at its point. -/
theorem redBlock_runs (calls : CallsAgree W prog call) {ds : IterationSpace}
    (type : typeKernel prog Γ space (.mk stms result) = some ts)
    (hspace : evalSpace W.machine.toFloatOps ρ space = some bounds)
    (stands : Stands E ctx Γ ρ) (spans : Spans E 0 space.dims bounds ds)
    (fresh : FreshNames Γ (space.dims.map Prod.fst ++ stmsBinders stms))
    (single : ∀ stm ∈ stms, ∃ elem exp, stm = .mk [elem] exp)
    (lambdaType : typeLambda prog Γ params body = some ts)
    (paramTypes : params.map Param.ty = (ts ++ ts).map .prim)
    (lambdaFresh : FreshNames Γ (params.map Param.name ++ body.binders))
    {inputs outputs : List Value} {xs : List (MVal F)}
    (loaded : List.Forall₂ (Loaded Γ ρ (bounds.map Prod.snd) E) (space.affineReads stms) inputs)
    (seen : inputs.mapM E = some xs) {shape : List Int} {elems : List ElemTy}
    (outTypes : outputs.map Value.ty = tensorTypes shape elems)
    (lowered : List.Forall₂ (fun t e => lowerPrimType t = .ok e) ts elems) :
    Lower.Runs W point E (Lower.inBlock ((inputs ++ outputs).map fun v => v.ty.elemOrSelf)
      fun args => do
        let (returns, kernelCtx) ← lowerSegOpKernelBody cfg args (space.affineReads stms) ds
          (lowerKernelStms cfg prog calleeOf stms) result ctx
        let lambdaCtx ← bindOperands cfg kernelCtx params (args.drop inputs.length) returns
        let (results, _) ← lowerBody cfg prog calleeOf body lambdaCtx
        return (results, ())) fun E' r => E' = E ∧ BlockRuns W E r.1
          (ReduceArgs (reduceStep W.machine.toFloatOps call space bounds (.mk stms result) params
            body ρ) (bounds.map Prod.snd)
            (((space.affineReads stms).map AffineRead.indexMap).zip xs) ts)
          fun i outs _ => ∃ ps, i.2.2 = ps.map .prim ∧ outs = lowerAll ps ∧
            List.Forall₂ PVal.HasType ps ts := by
  refine .inBlock _ _ fun i q vals pre => ?_
  obtain ⟨p, accs, outs⟩ := i
  obtain ⟨rfl, inside, typed, rfl, step⟩ := pre
  obtain ⟨kernel, eval, step⟩ := Option.bind_eq_some_iff.mp step
  have width : outputs.length = ts.length := by
    rw [← List.length_map (f := Value.ty), outTypes, tensorTypes, List.length_map,
      lowered.length_eq]
  refine ⟨?_, fun args E₀ sub types values => ?_⟩
  · rw [List.length_append, inputsAt_length loaded seen, lowerAll_length, List.length_map,
      List.length_append, width, typed.length_eq]
  have dims : ∀ read ∈ space.affineReads stms, ∀ d ∈ read.indexMap.results,
      d < (bounds.map Prod.snd).length := by
    intro read hread d hd
    rw [List.length_map, spans.length.2]
    exact (affineReads_inside hread).2 d hd
  obtain ⟨Γ₁, Γ₂, ρ₁, ρ₂, k⟩ := kernel_at stands type hspace eval
  have loads := hoisted_block loaded seen inside dims types values
  have accumulators := accumulators_computes loaded seen outTypes lowered typed types values
  refine .bind (lowerSegOpKernelBody_runs cfg calls k hspace inside (stands.mono sub)
    (spans.mono sub) fresh single loads) fun r E₁ sub₁ hr => ?_
  obtain ⟨⟨qs, rfl, computes⟩, kept⟩ := hr
  refine .bind (.liftExcept _) fun c E₂ sub₂ hc => ?_
  obtain ⟨rfl, hc⟩ := hc
  rw [bindOperands_eq hc]
  rw [← List.map_append] at step
  have both : Computes E₂ (args.drop inputs.length ++ r.1) (accs ++ qs) (ts ++ ts) :=
    (accumulators.mono sub₁).append computes
  have outer : Stands E₂ r.2 Γ ρ := ((stands.mono sub).mono sub₁).kept kept
  refine .bind (lowerLambda_runs calls outer lambdaType paramTypes lambdaFresh step both)
    fun s E₃ _ hs => .pure ?_
  obtain ⟨ps, rfl, results⟩ := hs
  exact ⟨_, results.values, ps, rfl, rfl, results.types⟩

end Block

section Fold

variable {prog : Prog} {W : World F} {point : List Nat} {E : Env F} {Γ : Types} {ρ : Store F}
  {space : SegSpace} {stms : List Stm} {ts : List PrimType} {outer : List Nat} {n : Nat}

/-- The scalars are the lowered accumulators, which have these types. -/
def Accumulated (ts : List PrimType) (accs : List (FVal F)) (xs : List (Scalar F)) : Prop :=
  ∃ ps : List (PVal F), accs = ps.map .prim ∧ List.Forall₂ PVal.HasType ps ts ∧
    xs = ps.map PVal.lower

theorem isFilled_tensors {vs : List Value} {ps : List (PVal F)}
    (h : List.Forall₂ (IsFilled outer E) vs ps) :
    ∃ outs : List (Tensor (Scalar F)), vs.mapM E = some (outs.map .tensor) ∧
      outs.map Tensor.shape = List.replicate vs.length outer ∧
      ∀ o, elementsAt outs o = ps.map PVal.lower := by
  induction h with
  | nil => exact ⟨[], rfl, rfl, fun _ => rfl⟩
  | @cons v p _ _ hv _ ih =>
    obtain ⟨outs, seen, shapes, elements⟩ := ih
    have value : E v = some (.tensor ⟨outer, fun _ => p.lower⟩) := hv
    refine ⟨⟨outer, fun _ => p.lower⟩ :: outs, ?_, ?_, ?_⟩
    · rw [List.mapM_cons, value, seen]
      rfl
    · rw [List.map_cons, shapes]
      rfl
    · intro o
      rw [List.map_cons, ← elements o]
      rfl

/-- The points of the domain that are mapped to an outer index: its coordinates in order. -/
theorem filter_outer {rank : Nat} (length : (outer ++ [n]).length = rank) {o : List Nat}
    (inside : InBounds outer o) :
    (points (outer ++ [n])).filter (fun q =>
      AffineMap.project ⟨rank, List.range (rank - 1)⟩ q = o) =
      (List.range n).map fun j => o ++ [j] := by
  have last : rank - 1 = outer.length := by
    rw [← length, List.length_append, List.length_singleton, Nat.add_sub_cancel]
  have same : ∀ q ∈ points (outer ++ [n]),
      decide (AffineMap.project ⟨rank, List.range (rank - 1)⟩ q = o) =
        decide (q.take outer.length = o) := by
    intro q hq
    have width := (mem_points.mp hq).length
    rw [KernelShape.project_range (by omega), last]
  rw [List.filter_congr same]
  exact filter_points_last inside n

/-- The `linalg.generic` of a reduction leaves in its outputs the folds of its steps. -/
theorem redGeneric_runs {blk : Block} {inputs outputs : List Value} {xs : List (MVal F)}
    {tys : List MlirTy} {step : List (FVal F) → List Nat → Option (List (FVal F))}
    (rank : (outer ++ [n]).length = space.dims.length)
    (covered : ∀ d < space.dims.length, d < space.dims.length - 1 ∧ 0 < ts.length ∨
      ∃ read ∈ space.affineReads stms, d ∈ read.indexMap.results)
    (loaded : List.Forall₂ (Loaded Γ ρ (outer ++ [n]) E) (space.affineReads stms) inputs)
    (seen : inputs.mapM E = some xs) {neutrals : List (PVal F)}
    (typed : List.Forall₂ PVal.HasType neutrals ts)
    (filled : List.Forall₂ (IsFilled outer E) outputs neutrals)
    (types : tys.length = outputs.length)
    (runs : BlockRuns W E blk (ReduceArgs step (outer ++ [n])
      (((space.affineReads stms).map AffineRead.indexMap).zip xs) ts)
      fun i outs _ => ∃ ps, i.2.2 = ps.map .prim ∧ outs = lowerAll ps ∧
        List.Forall₂ PVal.HasType ps ts) {R : List Nat → List (FVal F)}
    (folds : ∀ o, InBounds outer o → (List.range n).foldlM (fun accs j => step accs (o ++ [j]))
      (neutrals.map .prim) = some (R o)) {iterTypes : List IteratorType}
    (iters : iterTypes.length = space.dims.length) :
    Emit.Runs W point E (Emit.create (.generic inputs.length
      ((space.affineReads stms).map AffineRead.indexMap ++ List.replicate outputs.length
        ⟨space.dims.length, List.range (space.dims.length - 1)⟩) iterTypes)
      (inputs ++ outputs) tys [blk]) fun E' vs => vs.map Value.ty = tys ∧
        ∃ results, vs.mapM E' = some (results.map .tensor) ∧
          (∀ t ∈ results, t.shape = outer) ∧
          KernelAtEach R outer ts fun o ps => elementsAt results o = ps.map PVal.lower := by
  obtain ⟨outs, seenOuts, shapes, elements⟩ := isFilled_tensors filled
  obtain ⟨xs', seen', inShapes⟩ := loaded_shapes loaded
  cases seen.symm.trans seen'
  have count : outputs.length = ts.length := filled.length_eq.trans typed.length_eq
  have last : space.dims.length - 1 = outer.length := by
    rw [← rank, List.length_append, List.length_singleton, Nat.add_sub_cancel]
  have le : space.dims.length - 1 ≤ (outer ++ [n]).length := by
    rw [last, List.length_append]
    exact Nat.le_add_right _ _
  have domain := KernelShape.domain_of_covered
    ⟨space, stms, space.dims.length - 1, outputs.length⟩ rank le (count ▸ covered)
  have front : (outer ++ [n]).take (space.dims.length - 1) = outer := by
    rw [last, List.take_left]
  rw [front, ← inShapes, ← shapes] at domain
  have steps : BodySteps (Accumulated ts) step
      ⟨blk.args, fun p vals => execBlock W.machine W.call blk p E vals⟩
      (((space.affineReads stms).map AffineRead.indexMap).zip xs) outputs.length
      (outer ++ [n]) := by
    rintro p inside _ next accs hnext length ⟨ps, rfl, hasTypes, rfl⟩
    obtain ⟨_, ws, exec, qs, rfl, rfl, hasTypes'⟩ :=
      runs (p, ps, next) p _ ⟨rfl, inside, hasTypes, rfl, hnext⟩
    refine ⟨qs.map PVal.lower, ws, ?_, ?_, qs, rfl, hasTypes', rfl⟩
    · rw [← toScalars_lowerAll, ← toScalars_lowerAll]
      exact exec
    · rw [List.length_map, hasTypes'.length_eq, count]
  have start : ∀ o, Accumulated ts (neutrals.map .prim) (elementsAt outs o) :=
    fun o => ⟨neutrals, rfl, typed, elements o⟩
  have fold : ∀ o, InBounds outer o → ((points (outer ++ [n])).filter fun q =>
      AffineMap.project ⟨space.dims.length, List.range (space.dims.length - 1)⟩ q = o).foldlM step
        (neutrals.map .prim) = some (R o) := by
    intro o inside
    rw [filter_outer rank inside, List.foldlM_map]
    exact folds o inside
  have defined : ∀ p, InBounds (outer ++ [n]) p → ∃ b b', Accumulated ts b (elementsAt outs
      (AffineMap.project ⟨space.dims.length, List.range (space.dims.length - 1)⟩ p)) ∧
      ((points (outer ++ [n])).filter fun q =>
        AffineMap.project ⟨space.dims.length, List.range (space.dims.length - 1)⟩ q =
          AffineMap.project ⟨space.dims.length, List.range (space.dims.length - 1)⟩ p).foldlM
            step b = some b' := by
    intro p inside
    refine ⟨_, _, start _, fold _ ?_⟩
    rw [KernelShape.project_range (by rw [inside.length, rank]; omega), last]
    have both := List.forall₂_take outer.length inside
    rwa [List.take_left] at both
  refine (generic_runs seen seenOuts ?_ types ?_ steps defined).weaken fun E' ws vs _ h => ?_
  · rw [List.length_map, loaded.length_eq]
  · rw [iters]
    exact domain
  · obtain ⟨noWrites, tys, results, seen'', shapes', holds⟩ := h
    refine ⟨noWrites, tys, results, seen'', fun t ht => ?_, fun o inside => ?_⟩
    · have member := List.mem_map_of_mem (f := Tensor.shape) ht
      rw [shapes', shapes] at member
      exact (List.mem_replicate.mp member).2
    · obtain ⟨ps, eq, hasTypes, lowered⟩ := holds o _ _ (start o) (fold o inside)
      exact ⟨ps, eq, hasTypes, lowered⟩

end Fold

section Lowering

/-- A kernel and an operator with its neutral elements, over a space whose last extent is
`n`. -/
structure FoldKernel (prog : Prog) (fl : FloatOps F) (Γ : Types) (ρ : Store F) (space : SegSpace)
    (stms : List Stm) (result : List SubExp) (params : List Param) (body : Body)
    (neutral : List SubExp) (ts : List PrimType) (bounds : List (IntType × Nat))
    (outer : List Nat) (n : Nat) (neutrals : List (PVal F)) : Prop where
  type : typeKernel prog Γ space (.mk stms result) = some ts
  bounded : evalSpace fl ρ space = some bounds
  extents : bounds.map Prod.snd = outer ++ [n]
  fresh : FreshNames Γ (space.dims.map Prod.fst ++ stmsBinders stms)
  lambdaType : typeLambda prog Γ params body = some ts
  paramTypes : params.map Param.ty = (ts ++ ts).map .prim
  lambdaFresh : FreshNames Γ (params.map Param.name ++ body.binders)
  values : neutral.mapM (evalPrim fl ρ) = some neutrals
  typed : List.Forall₂ PVal.HasType neutrals ts

theorem FoldKernel.ends {prog : Prog} {fl : FloatOps F} {Γ : Types} {ρ : Store F}
    {space : SegSpace} {stms : List Stm} {result neutral : List SubExp} {params : List Param}
    {body : Body} {ts : List PrimType} {bounds bs : List (IntType × Nat)} {b : IntType × Nat}
    {outer : List Nat} {n : Nat} {neutrals : List (PVal F)}
    (h : FoldKernel prog fl Γ ρ space stms result params body neutral ts bounds outer n neutrals)
    (split : bounds = bs ++ [b]) : bs.map Prod.snd = outer ∧ b.2 = n := by
  have extents := h.extents
  rw [split, List.map_append] at extents
  obtain ⟨first, last⟩ := List.append_inj' extents rfl
  exact ⟨first, (List.cons.inj last).1⟩

/-- A reduction: the space is the domain of its `linalg.generic`, and the arrays that are
loaded at gtids are bound outside. -/
structure RedKernel (prog : Prog) (fl : FloatOps F) (Γ : Types) (ρ : Store F) (space : SegSpace)
    (stms : List Stm) (result : List SubExp) (params : List Param) (body : Body)
    (neutral : List SubExp) (ts : List PrimType) (bounds : List (IntType × Nat))
    (outer : List Nat) (n : Nat) (neutrals : List (PVal F)) : Prop
    extends FoldKernel prog fl Γ ρ space stms result params body neutral ts bounds outer n
      neutrals where
  loads : ∀ read ∈ space.affineReads stms, ∃ a elem shape, ρ read.array = some (.array a) ∧
    Γ read.array = some (.array elem shape)
  filled : KernelShape.Filled ⟨space, stms, space.dims.length - 1, ts.length⟩ ρ (outer ++ [n])

variable (cfg : Config) {prog : Prog} {W : World F} {point : List Nat} {E : Env F} {ctx : Ctx}
  {Γ : Types} {ρ : Store F} {call : String → List (FVal F) → Option (List (FVal F))}
  {space : SegSpace} {bounds : List (IntType × Nat)} {stms : List Stm} {result : List SubExp}
  {params : List Param} {body : Body} {neutral : List SubExp} {ts : List PrimType}
  {outer : List Nat} {n : Nat} {neutrals : List (PVal F)} {R : List Nat → List (FVal F)}

theorem lowerSegRed_runs (calls : CallsAgree W prog call) (stands : Stands E ctx Γ ρ)
    (h : RedKernel prog W.machine.toFloatOps Γ ρ space stms result params body neutral ts bounds
      outer n neutrals)
    (folds : ∀ o, InBounds outer o → evalReduction W.machine.toFloatOps call space bounds
      (.mk stms result) params body ρ (neutrals.map .prim) n o = some (R o)) {lvl : SegLevel}
    {shape : List SubExp} :
    Lower.Runs W point E (lowerSegRed cfg lvl space stms result params (ts.map .prim) neutral shape
      (lowerKernelStms cfg prog calleeOf stms) (lowerBody cfg prog calleeOf body) ctx)
      fun E' vs => vs.length = ts.length ∧ ∀ k v, vs[k]? = some v →
        ∃ a, Represents E' v (.array a) ∧ IsResult R ts outer k a := by
  have fill : ReadsFill space bounds stms Γ ρ := by
    intro read hread
    obtain ⟨a, elem, shape, stored, array⟩ := h.loads read hread
    exact ⟨a, elem, shape, stored, array, h.extents ▸ h.filled.extents read hread a stored⟩
  unfold lowerSegRed
  refine .bind (.liftExcept _) fun _ E₁ sub₁ _ => ?_
  split
  · exact .throw
  refine .bind (.lift (lowerPrims_runs (stands.mono sub₁).rep h.values))
    fun nvs E₂ sub₂ hnvs => ?_
  have stands₂ := (stands.mono sub₁).mono sub₂
  refine .bind (.lift (lowerSegDims_runs stands₂.rep 0 h.bounded)) fun ds E₃ sub₃ spans => ?_
  dsimp only
  split
  · exact .throw
  rename_i some
  refine .bind (.liftExcept _) fun rs E₄ sub₄ hrs => ?_
  obtain ⟨rfl, hrs⟩ := hrs
  obtain ⟨rfl, single⟩ := spans.names.findSegOpAffineReads_eq hrs
  have stands₃ := stands₂.mono sub₃
  refine .bind (.lift (lookups_loaded stands₃ fill)) fun inputs E₅ sub₅ loaded => ?_
  refine .bind (.liftExcept _) fun tys E₆ sub₆ htys => ?_
  obtain ⟨rfl, htys⟩ := htys
  have rank : ds.length = space.dims.length := spans.length.1
  have width : (outer ++ [n]).length = space.dims.length := by
    rw [← h.extents, List.length_map, spans.length.2]
  have last : ds.length - 1 = outer.length := by
    rw [rank, ← width, List.length_append, List.length_singleton, Nat.add_sub_cancel]
  have outerSpans := (spans.mono sub₅).take (ds.length - 1)
  have extents : (bounds.take (ds.length - 1)).map Prod.snd = outer := by
    rw [List.map_take, h.extents, last, List.take_left]
  obtain ⟨shape', hshape⟩ := outerSpans.shape
  rw [rank] at hshape
  obtain ⟨elems, helems, rfl⟩ := segOpTypes_eq (rank ▸ htys) hshape
  rw [spans.filter_outer some]
  refine .bind (.lift (spaceSizes_runs outerSpans (rank ▸ hshape))) fun sizes E₇ sub₇ hsizes => ?_
  rw [extents] at hsizes
  refine .bind (.liftExcept _) fun pairs E₈ sub₈ hpairs => ?_
  obtain ⟨rfl, hpairs⟩ := hpairs
  obtain ⟨rfl, fst⟩ := zipEqual_fst cfg hpairs
  have lowered : List.Forall₂ (fun t e => lowerPrimType t = .ok e) ts elems := by
    rw [Except.mapM_eq_ok, List.forall₂_map_left_iff] at helems
    exact helems
  have count : elems.length = nvs.length := by
    rw [← lowered.length_eq, hnvs.length_eq, h.typed.length_eq]
  have represent := hnvs.imp fun _ _ h => h.mono ((sub₃.trans sub₅).trans sub₇)
  refine .bind (.lift (filledOutputs_runs hsizes represent (le_of_eq count)))
    fun outputs E₉ sub₉ houtputs => ?_
  obtain ⟨filled, types⟩ := houtputs
  rw [count, hnvs.length_eq, List.take_length] at filled
  have later := (sub₅.trans sub₇).trans sub₉
  have loaded₉ := loaded.imp fun _ _ h => h.mono (sub₇.trans sub₉)
  obtain ⟨xs, seen, _⟩ := loaded_shapes loaded₉
  refine .bind (redBlock_runs cfg calls h.type h.bounded (stands₃.mono later) (spans.mono later)
    h.fresh single h.lambdaType h.paramTypes h.lambdaFresh loaded₉ seen types lowered)
    fun r E₁₀ sub₁₀ hr => ?_
  obtain ⟨rfl, runs⟩ := hr
  rw [rank]
  rw [h.extents] at runs loaded₉
  have outCount : (tensorTypes shape' elems).length = outputs.length := by
    rw [← types, List.length_map]
  have iters : (List.replicate (space.dims.length - 1) IteratorType.parallel ++
      [IteratorType.reduction]).length = space.dims.length := by
    rw [List.length_append, List.length_replicate, List.length_singleton, ← width,
      List.length_append, List.length_singleton, Nat.add_sub_cancel]
  have op : Emit.Runs W point _ _ _ := redGeneric_runs width h.filled.covered loaded₉ seen h.typed
    filled outCount runs folds iters
  refine (Lower.Effects.lift op).weaken fun E' ws vs _ h' => ?_
  obtain ⟨noWrites, tys, results, seen', shapes, each⟩ := h'
  obtain ⟨ns, _, resolved⟩ := hsizes
  exact ⟨noWrites, results_represent tys (resolveShape_fits resolved) seen' shapes lowered each⟩

/-- Result `k` of a reduction holds, at every outer index, result `k` of the fold of the
operator over the last coordinate, from the neutral elements on. -/
theorem segRed_computes (calls : CallsAgree W prog call) (stands : Stands E ctx Γ ρ)
    (h : RedKernel prog W.machine.toFloatOps Γ ρ space stms result params body neutral ts bounds
      outer n neutrals)
    (folds : ∀ o, InBounds outer o → evalReduction W.machine.toFloatOps call space bounds
      (.mk stms result) params body ρ (neutrals.map .prim) n o = some (R o)) (lvl : SegLevel)
    (shape : List SubExp) (ret : List Ty) :
    Lower.Runs W point E (lowerSegOp cfg prog calleeOf (.segRed lvl space ret (.mk stms result)
      [.mk (.mk params (ts.map .prim) body) neutral shape]) ctx) fun E' vs =>
        vs.length = ts.length ∧ ∀ k v, vs[k]? = some v →
          ∃ a, Represents E' v (.array a) ∧ IsResult R ts outer k a := by
  rw [lowerSegOp]
  exact lowerSegRed_runs cfg calls stands h folds

end Lowering

section Examples

def summing : SegOp :=
  .segRed .thread doublingKernel.space [.prim (.int .int64)] (.mk loadStms [.var "x"])
    [.mk (.mk sumParams [.prim (.int .int64)] sumBody) [.const (.createInt 0 64)] []]

def sumOfFour (_ : List Nat) : List (FVal Unit) := [.prim (.int .int64 6)]

theorem summing_kernel : RedKernel emptyProg unitMachine.toFloatOps (numbersTypes 4)
    (numbersStore 4) doublingKernel.space loadStms [.var "x"] sumParams sumBody
    [.const (.createInt 0 64)] [.int .int64] [(.int64, 4)] [] 4 [.int .int64 0] where
  type := rfl
  bounded := rfl
  extents := rfl
  fresh := numbersTypes_fresh (by decide) (by decide)
  loads := by
    intro read hread
    rw [loadStms_affineReads] at hread
    cases List.mem_singleton.mp hread
    exact ⟨numbers 4, _, _, Binding.insert_self _ _ _, Binding.insert_self _ _ _⟩
  filled := by
    constructor
    · intro read hread a stored
      rw [loadStms_affineReads] at hread
      cases List.mem_singleton.mp hread
      cases (Binding.insert_self _ _ _).symm.trans stored
      rfl
    · intro d lt
      refine .inr ⟨⟨"x", "xs", ⟨1, [0]⟩⟩, ?_, ?_⟩
      · rw [loadStms_affineReads]
        exact List.mem_singleton_self _
      · obtain rfl : d = 0 := Nat.lt_one_iff.mp lt
        exact List.mem_singleton_self _
  lambdaType := rfl
  paramTypes := rfl
  lambdaFresh := numbersTypes_fresh (by decide) (by decide)
  values := rfl
  typed := .cons rfl .nil

theorem segRed_computes_summing : ∃ vs b' new E' v a,
    (lowerSegOp releaseConfig emptyProg calleeOf summing (numbersCtx 4)).run afterArray =
      .ok (vs, b') ∧ b'.ip.ops = [] ++ new ∧
    execOps unitMachine (fun _ _ => none) new [] (numbersEnv 4) = some (E', []) ∧
    vs[0]? = some v ∧ Represents E' v (.array a) ∧ IsResult sumOfFour [.int .int64] [] 0 a := by
  let W : World Unit := ⟨unitMachine, fun _ _ => none⟩
  have calls : CallsAgree W emptyProg fun _ _ => none := emptyProg_calls W _
  obtain ⟨⟨vs, b'⟩, run⟩ := Except.exists_ok (x := (lowerSegOp releaseConfig emptyProg calleeOf
    summing (numbersCtx 4)).run afterArray) (by decide +kernel)
  have folds : ∀ o, InBounds [] o → evalReduction unitMachine.toFloatOps (fun _ _ => none)
      doublingKernel.space [(.int64, 4)] (.mk loadStms [.var "x"]) sumParams sumBody
      (numbersStore 4) [.prim (.int .int64 0)] 4 o = some (sumOfFour o) := by
    intro o inside
    cases inside
    rfl
  have computes : Lower.Runs W [] _ _ _ := segRed_computes releaseConfig calls (numbers_stands 4)
    summing_kernel folds .thread [] [.prim (.int .int64)]
  obtain ⟨new, E', _, ops, exec, _, _, rfl, length, each⟩ :=
    computes afterArray vs b' run (numbers_below 4)
  have lt : 0 < vs.length := by rw [length]; exact Nat.zero_lt_one
  obtain ⟨a, represents, isResult⟩ := each 0 _ (List.getElem?_eq_getElem lt)
  exact ⟨vs, b', new, E', _, a, run, ops, exec, List.getElem?_eq_getElem lt, represents, isResult⟩

end Examples

end FutharkMlir
