import FutharkMlir.Kernels.Reduce
import FutharkMlir.Kernels.Rows

/-! The loop along a row of a scan: after `k` iterations the accumulators are the reduction up
to there, and the first `k` elements of the rows are written. -/
namespace FutharkMlir

variable {F : Type}

/-- The element of a scan at an outer index and a last coordinate: the post-operator takes the
reduction up to and including this coordinate. -/
def evalScan (fl : FloatOps F) (call : String → List (FVal F) → Option (List (FVal F)))
    (space : SegSpace) (bounds : List (IntType × Nat)) (kernel : Body) (params : List Param)
    (body : Body) (postParams : List Param) (postBody : Body) (ρ : Store F)
    (neutral : List (FVal F)) (o : List Nat) (j : Nat) : Option (List (FVal F)) := do
  let accs ← evalReduction fl call space bounds kernel params body ρ neutral (j + 1) o
  evalLambda fl call postParams postBody ρ accs

theorem evalReduction_succ {fl : FloatOps F}
    {call : String → List (FVal F) → Option (List (FVal F))} {space : SegSpace}
    {bounds : List (IntType × Nat)} {kernel : Body} {params : List Param} {body : Body}
    {ρ : Store F} {neutral : List (FVal F)} {k : Nat} {o : List Nat} :
    evalReduction fl call space bounds kernel params body ρ neutral (k + 1) o =
      (evalReduction fl call space bounds kernel params body ρ neutral k o).bind fun accs =>
        reduceStep fl call space bounds kernel params body ρ accs (o ++ [k]) := by
  rw [evalReduction, evalReduction, List.range_succ, List.foldlM_append]
  simp only [List.foldlM_cons, List.foldlM_nil, bind_pure, Option.bind_eq_bind]

/-- A loop from zero in steps of one keeps what its body keeps from one count to the next. -/
theorem runFor_invariant {body : Region F} {point : List Nat} {Inv : Nat → List (MVal F) → Prop}
    {n : BitVec 64} {inits : List (MVal F)}
    (step : ∀ k < n.toInt.toNat, ∀ d, Inv k d →
      ∃ d' ws, body.run point (MVal.ofIndex k :: d) = some (d', ws) ∧
        d'.length = inits.length ∧ Inv (k + 1) d')
    (start : Inv 0 inits) :
    ∃ d', runFor body point (.scalar (.index (BitVec.ofInt 64 0)) :: .scalar (.index n) ::
      .scalar (.index (BitVec.ofInt 64 1)) :: inits) = some d' ∧ Inv n.toInt.toNat d' := by
  -- the counter is the state of the loop
  let next (m k : Nat) : Option Nat := if m = k then some (k + 1) else none
  have counts : ∀ m, (List.range m).foldlM next 0 = some m := by
    intro m
    induction m with
    | zero => rfl
    | succ m ih => simp [List.range_succ, List.foldlM_append, ih, next]
  refine runFor_counted body (R := Inv) (f := next) ?_ start (counts _)
  intro k lt m d m' inv eq
  obtain ⟨rfl, eq⟩ := Option.ite_none_right_eq_some.mp eq
  cases eq
  exact step m lt d inv

section Operations

variable {W : World F} {point : List Nat} {E : Env F}

theorem values_types {us : List Value} {ys : List (MVal F)} {tys : List MlirTy}
    (length : ys.length = tys.length)
    (h : List.Forall₂ (fun u (q : MVal F × MlirTy) => E u = some q.1 ∧ u.ty = q.2) us (ys.zip tys)) :
    us.mapM E = some ys ∧ us.map Value.ty = tys := by
  induction us generalizing ys tys with
  | nil =>
    cases ys with
    | nil => exact ⟨rfl, (List.eq_nil_of_length_eq_zero length.symm).symm⟩
    | cons y ys =>
      cases tys with
      | nil => cases length
      | cons ty tys => cases h
  | cons u us ih =>
    cases ys with
    | nil => cases h
    | cons y ys =>
      cases tys with
      | nil => cases length
      | cons ty tys =>
        obtain ⟨⟨value, type⟩, rest⟩ := List.forall₂_cons.mp h
        obtain ⟨values, types⟩ := ih (Nat.succ.inj length) rest
        rw [List.mapM_cons, value, values, List.map_cons, types, type]
        exact ⟨rfl, rfl⟩

theorem tieShapes_runs {sizes vs : List Value} {xs ys : List (MVal F)}
    (sized : sizes.mapM E = some xs) (seen : vs.mapM E = some ys) :
    Emit.Runs W point E (tieShapes sizes vs) fun E' us =>
      us.mapM E' = some ys ∧ us.map Value.ty = vs.map Value.ty := by
  unfold tieShapes
  split
  · exact .pure ⟨rfl, seen, rfl⟩
  have each : List.Forall₂ (fun v (q : MVal F × MlirTy) => ∀ E', E.Sub E' →
      Emit.Runs W point E' (Emit.create1 .tieShape (v :: sizes) v.ty) fun E'' u =>
        E'' u = some q.1 ∧ u.ty = q.2) vs (ys.zip (vs.map Value.ty)) := by
    rw [List.mapM_eq_some] at seen
    induction seen with
    | nil => exact .nil
    | @cons v y _ _ hv _ ih =>
      refine .cons (fun E' sub => ?_) ih
      have operands : (v :: sizes).mapM E' = some (y :: xs) := by
        rw [List.mapM_cons, sub _ _ hv, sub.mapM sized]
        rfl
      exact create1_runs operands (by simp [evalOp, evalTensorOp])
  refine (Emit.Effects.mapM (fun _ _ _ _ sub h => ⟨sub _ _ h.1, h.2⟩) each).weaken
    fun E' ws us _ h => ⟨h.1, ?_⟩
  have length : ys.length = (vs.map Value.ty).length := by
    rw [List.length_map, (List.mapM_eq_some.mp seen).length_eq]
  exact values_types length h.2

theorem insertElements_runs {iv : Value} {j n : Nat} {elements rows : List Value}
    {ys : List (Scalar F)} {ts : List (Tensor (Scalar F))} (index : IsIndex E iv j) (lt : j < n)
    (helements : elements.mapM E = some (ys.map .scalar)) (hrows : rows.mapM E = some (ts.map .tensor))
    (length : ys.length = ts.length) (shapes : ∀ t ∈ ts, t.shape = [n]) :
    Emit.Runs W point E (insertElements iv elements rows) fun E' us =>
      us.mapM E' = some ((setAll ts [j] ys).map .tensor) ∧
        us.map Value.ty = rows.map Value.ty := by
  have each : List.Forall₂ (fun (p : Value × Value) (q : MVal F × MlirTy) => ∀ E', E.Sub E' →
      Emit.Runs W point E' (Emit.create1 .tensorInsert [p.1, p.2, iv] p.2.ty) fun E'' u =>
        E'' u = some q.1 ∧ u.ty = q.2) (elements.zip rows)
      (((setAll ts [j] ys).map .tensor).zip (rows.map Value.ty)) := by
    rw [List.mapM_eq_some, List.forall₂_map_right_iff] at helements hrows
    unfold setAll
    induction helements generalizing rows ts with
    | nil =>
      obtain rfl := List.eq_nil_of_length_eq_zero length.symm
      cases hrows
      exact .nil
    | @cons element y elements ys hy _ ih =>
      cases hrows with
      | nil => cases length
      | @cons row t rows ts ht hts =>
        obtain ⟨shape, shapes⟩ := List.forall_mem_cons.mp shapes
        refine .cons (fun E' sub => ?_) (ih hts (Nat.succ.inj length) shapes)
        obtain ⟨x, hx, toIndex⟩ := index
        have operands : [element, row, iv].mapM E' = some [.scalar y, .tensor t, x] := by
          simp [sub _ _ hy, sub _ _ ht, sub _ _ hx]
        have inside : InBounds t.shape [j] := by
          rw [shape]
          exact .cons lt .nil
        exact create1_runs operands (by simp [evalOp, evalTensorOp, toIndex, inside])
  refine (Emit.Effects.mapM (fun _ _ _ _ sub h => ⟨sub _ _ h.1, h.2⟩) each).weaken
    fun E' ws us _ h => ⟨h.1, values_types ?_ h.2⟩
  rw [List.length_map, List.length_map, setAll, List.length_zipWith, length, Nat.min_self,
    (List.mapM_eq_some.mp hrows).length_eq, List.length_map]

end Operations

/-- A scan: the post-operator takes what the operator yields. -/
structure ScanKernel (prog : Prog) (fl : FloatOps F) (Γ : Types) (ρ : Store F) (space : SegSpace)
    (stms : List Stm) (result : List SubExp) (params : List Param) (body : Body)
    (postParams : List Param) (postBody : Body) (neutral : List SubExp) (ts rets : List PrimType)
    (bounds : List (IntType × Nat)) (outer : List Nat) (n : Nat) (neutrals : List (PVal F)) : Prop
    extends FoldKernel prog fl Γ ρ space stms result params body neutral ts bounds outer n
      neutrals where
  postType : typeLambda prog Γ postParams postBody = some rets
  postTypes : postParams.map Param.ty = ts.map .prim
  postFresh : FreshNames Γ (postParams.map Param.name ++ postBody.binders)

section Step

variable (cfg : Config) {prog : Prog} {W : World F} {point : List Nat} {E : Env F} {ctx : Ctx}
  {Γ Γ₁ : Types} {ρ ρ₁ : Store F} {call : String → List (FVal F) → Option (List (FVal F))}
  {space : SegSpace} {bounds : List (IntType × Nat)} {stms : List Stm} {result : List SubExp}
  {params postParams : List Param} {body postBody : Body} {neutral : List SubExp}
  {ts rets : List PrimType} {outer o : List Nat} {n j : Nat} {neutrals : List (PVal F)}

/-- The gtids of the outer dimensions are bound, and then that of the last one. -/
theorem Stands.gtids (stands : Stands E ctx Γ ρ) {names : List VName} {x : VName}
    {gvals : List Value} {gtid : Value} {b : IntType × Nat}
    (outerGtids : Computes E gvals (gtidValues bounds o) ((bounds.map Prod.fst).map .int))
    (last : Represents E gtid (.prim (gtidValue b j))) (length : o.length = bounds.length)
    (named : names.length = gvals.length)
    (types : Γ.bind (names ++ [x]) ((((bounds ++ [b]).map Prod.fst).map .int).map .prim) = some Γ₁)
    (values : ρ.bind (names ++ [x]) ((gtidValues (bounds ++ [b]) (o ++ [j])).map .prim) =
      some ρ₁) : Stands E ((ctx.insertAll (names.zip gvals)).insert x gtid) Γ₁ ρ₁ := by
  have one : Computes E [gtid] [gtidValue b j] [.int b.1] :=
    ⟨by simp [last.1, lowerAll], .cons rfl .nil, .cons (hasType_of rfl last.2) .nil⟩
  have all := outerGtids.append one
  have points : gtidValues (bounds ++ [b]) (o ++ [j]) =
      gtidValues bounds o ++ [(gtidValue b j : PVal F)] :=
    List.zipWith_append length.symm
  have typesOf : ((bounds ++ [b]).map Prod.fst).map PrimType.int =
      (bounds.map Prod.fst).map .int ++ [.int b.1] := by
    rw [List.map_append, List.map_append]
    rfl
  rw [points] at values
  rw [typesOf] at types
  have bound := stands.bind all types values
  rwa [List.zip_append named, Ctx.insertAll_append] at bound

theorem castUnlessEqual_index {v : Value} {w : Nat} (type : v.ty = .index) :
    castUnlessEqual v (.int w) = indexCast v (.int w) := by
  rw [castUnlessEqual, if_neg]
  rw [type]
  intro eq
  cases eq

theorem firstValues_all {vs taken : List Value} {m : Nat} (length : vs.length = m)
    (h : firstValues vs m = .ok taken) : taken = vs := by
  rw [firstValues, if_neg (by omega), Except.ok.injEq] at h
  rw [← h, List.take_of_length_le (le_of_eq length)]

/-- One iteration of the loop along a row: the accumulators are those of the next count, and
one element of every row is set to what the post-operator makes of them. -/
theorem lowerScanStep_runs (calls : CallsAgree W prog call)
    (h : ScanKernel prog W.machine.toFloatOps Γ ρ space stms result params body postParams postBody
      neutral ts rets bounds outer n neutrals)
    (stands : Stands E ctx Γ ρ) {names : List VName} {x : VName} {bs : List (IntType × Nat)}
    {b : IntType × Nat} (dims : space.dims.map Prod.fst = names ++ [x]) (split : bounds = bs ++ [b])
    {gvals : List Value} (gtids : Computes E gvals (gtidValues bs o) ((bs.map Prod.fst).map .int))
    (inside : InBounds outer o) (lt : j < n) {d : Dim} (id : d.id = x)
    (width : d.value.ty = .int b.1.getWidth) {sizes : List Value} {xs : List (MVal F)}
    (sized : sizes.mapM E = some xs) {iv : Value} {accVals rowVals : List Value}
    {accs : List (PVal F)} {rows : List (Tensor (Scalar F))}
    (count : E iv = some (.ofIndex j)) (index : iv.ty = .index)
    (computes : Computes E accVals accs ts) (hrows : rowVals.mapM E = some (rows.map .tensor))
    (shapes : ∀ row ∈ rows, row.shape = [n]) (length : rows.length = rets.length)
    {next outs : List (FVal F)}
    (step : reduceStep W.machine.toFloatOps call space bounds (.mk stms result) params body ρ
      (accs.map .prim) (o ++ [j]) = some next)
    (post : evalLambda W.machine.toFloatOps call postParams postBody ρ next = some outs) :
    Lower.Runs W point E (lowerScanStep cfg ⟨d, params, postParams, result, ts.length, rets.length,
      sizes⟩ (lowerKernelStms cfg prog calleeOf stms) (lowerBody cfg prog calleeOf body)
      (lowerBody cfg prog calleeOf postBody) (ctx.insertAll (names.zip gvals))
      (iv :: (accVals ++ rowVals))) fun E' carry => ∃ accs' ps : List (PVal F),
        next = accs'.map .prim ∧ List.Forall₂ PVal.HasType accs' ts ∧ outs = ps.map .prim ∧
        List.Forall₂ PVal.HasType ps rets ∧ carry.mapM E' =
          some (lowerAll accs' ++ (setAll rows [j] (ps.map PVal.lower)).map .tensor) := by
  obtain ⟨vals, eval, step⟩ := Option.bind_eq_some_iff.mp step
  obtain ⟨Γ₁, Γ₂, ρ₁, ρ₂, k⟩ := kernel_at stands h.type h.bounded eval
  have accCount : accVals.length = ts.length := computes.static.length_eq
  have gtidNames : FreshNames Γ (names ++ [x]) :=
    dims ▸ h.fresh.sublist (List.sublist_append_left _ _)
  have ends := h.ends split
  have points : o.length = bs.length := by rw [inside.length, ← ends.1, List.length_map]
  have small : j < 2 ^ 63 := by
    have bound := evalSpace_small h.bounded b (by rw [split]; simp)
    have le : 2 ^ (b.1.getWidth - 1) ≤ 2 ^ 63 :=
      Nat.pow_le_pow_right (by decide) (by cases b.1 <;> decide)
    omega
  unfold lowerScanStep
  refine .bind (.liftExcept _) fun scanIndex E₁ sub₁ hindex => ?_
  obtain ⟨rfl, hindex⟩ := hindex
  cases hindex
  dsimp only
  rw [List.drop_one, List.tail_cons, List.drop_left' accCount, List.take_left' accCount]
  refine .bind (.lift (tieShapes_runs sized hrows)) fun outputRows E₂ sub₂ hout => ?_
  rw [width, castUnlessEqual_index index]
  refine .bind (.lift (counter_runs (sub₂ _ _ count))) fun gtid E₃ sub₃ hgtid => ?_
  have sub₀₃ := sub₂.trans sub₃
  have named : names.length = gvals.length := by
    have dimCount := (List.mapM_eq_some.mp h.bounded).length_eq
    have nameCount := congrArg List.length dims
    have valCount := gtids.static.length_eq
    rw [split] at dimCount
    simp only [List.length_map, List.length_append, List.length_singleton] at dimCount nameCount
    simp only [List.length_map] at valCount
    omega
  have bound : Stands E₃ ((ctx.insertAll (names.zip gvals)).insert x gtid) Γ₁ ρ₁ :=
    (stands.mono sub₀₃).gtids (gtids.mono sub₀₃) hgtid points named
      (by rw [← dims, ← split]; exact k.gtidTypes) (by rw [← dims, ← split]; exact k.gtids)
  rw [id, lowerKernelStms_nil]
  have stmNames : FreshNames Γ₁ (stmsBinders stms) := h.fresh.bind k.gtidTypes
  refine .bind (lowerStms_runs calls stms Γ₁ Γ₂ _ ρ₁ ρ₂ E₃ k.stmTypes k.stms bound stmNames)
    fun c E₄ sub₄ hc => ?_
  refine .bind (.lift ((lowerSubExps_runs hc.1.rep k.results).and
    (lowerSubExps_accepts hc.1.typed k.resultTypes))) fun returns E₅ sub₅ hreturns => ?_
  obtain ⟨qs, rfl, kernel⟩ := computes_of hreturns.1 hreturns.2
  have kept : Kept Γ ctx c := by
    have asOne : (ctx.insertAll (names.zip gvals)).insert x gtid =
        ctx.insertAll ((names ++ [x]).zip (gvals ++ [gtid])) := by
      rw [List.zip_append named, Ctx.insertAll_append]
      rfl
    have first : Kept Γ ctx ((ctx.insertAll (names.zip gvals)).insert x gtid) :=
      asOne ▸ .insertAll gtidNames ctx
    have types := k.gtidTypes
    rw [dims] at types
    exact first.trans (hc.2.mono (gtidNames.extends_bind types))
  have sub₀₅ := (sub₀₃.trans sub₄).trans sub₅
  have outer₅ : Stands E₅ c Γ ρ := (stands.mono sub₀₅).kept kept
  refine .bind (.liftExcept _) fun c' E₆ sub₆ hc' => ?_
  obtain ⟨rfl, hc'⟩ := hc'
  rw [bindOperands_eq hc']
  rw [← List.map_append] at step
  have both : Computes E₆ (accVals ++ returns) (accs ++ qs) (ts ++ ts) :=
    (computes.mono sub₀₅).append kernel
  refine .bind (lowerLambda_runs calls outer₅ h.lambdaType h.paramTypes h.lambdaFresh step both)
    fun r E₇ sub₇ hr => ?_
  obtain ⟨accs', rfl, nextAccs⟩ := hr
  refine .bind (.liftExcept _) fun taken E₈ sub₈ htaken => ?_
  obtain ⟨rfl, htaken⟩ := htaken
  split
  · exact .throw
  rw [firstValues_all nextAccs.static.length_eq htaken]
  have sub₀₇ := sub₀₅.trans sub₇
  refine .bind (lowerLambda_runs calls (outer₅.mono sub₇) h.postType h.postTypes h.postFresh post
    nextAccs) fun r' E₉ sub₉ hr' => ?_
  obtain ⟨ps, rfl, elements⟩ := hr'
  refine .bind (.liftExcept _) fun taken' E₁₀ sub₁₀ htaken' => ?_
  obtain ⟨rfl, htaken'⟩ := htaken'
  rw [firstValues_all elements.static.length_eq htaken']
  have sub₂₉ := ((((sub₃.trans sub₄).trans sub₅).trans sub₇).trans sub₉)
  have scanIndex : IsIndex E₁₀ iv j := ⟨_, (sub₂.trans sub₂₉) _ _ count, toIndex_ofIndex small⟩
  have values := elements.values
  rw [toScalars_lowerAll] at values
  have width' : (ps.map PVal.lower).length = rows.length := by
    rw [List.length_map, elements.types.length_eq, length]
  refine .bind (.lift (insertElements_runs scanIndex lt values (sub₂₉.mapM hout.1) width' shapes))
    fun nextRows E₁₁ sub₁₁ hnext => .pure ?_
  refine ⟨rfl, accs', ps, rfl, nextAccs.types, rfl, elements.types, ?_⟩
  rw [List.mapM_append, (sub₉.trans sub₁₁).mapM nextAccs.values, hnext.1]
  rfl

/-- Rows of `n` elements, the first `k` of which hold the results at an outer index. -/
structure RowsUpTo (R : List Nat → List (FVal F)) (rets : List PrimType) (o : List Nat) (n k : Nat)
    (rows : List (Tensor (Scalar F))) : Prop where
  length : rows.length = rets.length
  shapes : ∀ row ∈ rows, row.shape = [n]
  written : ∀ j < k, ∃ ps : List (PVal F), R (o ++ [j]) = ps.map .prim ∧
    List.Forall₂ PVal.HasType ps rets ∧ elementsAt rows [j] = ps.map PVal.lower

theorem RowsUpTo.next {R : List Nat → List (FVal F)} {rows : List (Tensor (Scalar F))} {k : Nat}
    (h : RowsUpTo R rets o n k rows) {ps : List (PVal F)} (result : R (o ++ [k]) = ps.map .prim)
    (hasTypes : List.Forall₂ PVal.HasType ps rets) :
    RowsUpTo R rets o n (k + 1) (setAll rows [k] (ps.map PVal.lower)) := by
  have width : (ps.map PVal.lower).length = rows.length := by
    rw [List.length_map, hasTypes.length_eq, h.length]
  have same := setAll_shapes (q := [k]) width
  constructor
  · rw [← List.length_map (f := Tensor.shape), same, List.length_map, h.length]
  · intro row member
    have shape := List.mem_map_of_mem (f := Tensor.shape) member
    rw [same] at shape
    obtain ⟨old, hold, eq⟩ := List.mem_map.mp shape
    rw [← eq, h.shapes old hold]
  · intro j lt
    by_cases eq : j = k
    · subst eq
      exact ⟨ps, result, hasTypes, elementsAt_setAll width⟩
    · obtain ⟨qs, hqs, types, elements⟩ := h.written j (by omega)
      refine ⟨qs, hqs, types, ?_⟩
      have ne : ([j] : List Nat) ≠ [k] := fun h => eq (List.cons.inj h).1
      rw [elementsAt_setAll_of_ne width ne, elements]

/-- What the loop along a row carries after `k` counts: the reduction up to there, and the
rows. -/
def RowState (reduce : Nat → Option (List (FVal F))) (R : List Nat → List (FVal F))
    (ts rets : List PrimType) (o : List Nat) (n k : Nat) (d : List (MVal F)) : Prop :=
  ∃ (accs : List (PVal F)) (rows : List (Tensor (Scalar F))),
    d = lowerAll accs ++ rows.map .tensor ∧ reduce k = some (accs.map .prim) ∧
    List.Forall₂ PVal.HasType accs ts ∧ RowsUpTo R rets o n k rows

def RowEnter (reduce : Nat → Option (List (FVal F))) (R : List Nat → List (FVal F))
    (ts rets : List PrimType) (o : List Nat) (n : Nat) (point : List Nat)
    (i : Nat × List (MVal F)) (at' : List Nat) (vals : List (MVal F)) : Prop :=
  at' = point ∧ i.1 < n ∧ vals = .ofIndex i.1 :: i.2 ∧ RowState reduce R ts rets o n i.1 i.2

def RowLeave (reduce : Nat → Option (List (FVal F))) (R : List Nat → List (FVal F))
    (ts rets : List PrimType) (o : List Nat) (n : Nat) (i : Nat × List (MVal F))
    (outs : List (MVal F)) (_ : List (Write F)) : Prop :=
  RowState reduce R ts rets o n (i.1 + 1) outs

/-- The body of the loop along a row takes what is carried from one count to the next. -/
theorem rowBlock_runs (calls : CallsAgree W prog call)
    (h : ScanKernel prog W.machine.toFloatOps Γ ρ space stms result params body postParams postBody
      neutral ts rets bounds outer n neutrals)
    (stands : Stands E ctx Γ ρ) {names : List VName} {x : VName} {bs : List (IntType × Nat)}
    {b : IntType × Nat} (dims : space.dims.map Prod.fst = names ++ [x]) (split : bounds = bs ++ [b])
    {gvals : List Value} (gtids : Computes E gvals (gtidValues bs o) ((bs.map Prod.fst).map .int))
    (inside : InBounds outer o) {d : Dim} (id : d.id = x)
    (width : d.value.ty = .int b.1.getWidth) {sizes : List Value} {xs : List (MVal F)}
    (sized : sizes.mapM E = some xs) {accTys rowTys : List MlirTy} (lowers : LowersTo accTys ts)
    (rowCount : rowTys.length = rets.length) {R : List Nat → List (FVal F)}
    (scans : ∀ j < n, evalScan W.machine.toFloatOps call space bounds (.mk stms result) params body
      postParams postBody ρ (neutrals.map .prim) o j = some (R (o ++ [j]))) :
    Lower.Runs W point E (Lower.inBlock (.index :: (accTys ++ rowTys)) fun args => do
      let carry ← lowerScanStep cfg ⟨d, params, postParams, result, ts.length, rets.length, sizes⟩
        (lowerKernelStms cfg prog calleeOf stms) (lowerBody cfg prog calleeOf body)
        (lowerBody cfg prog calleeOf postBody) (ctx.insertAll (names.zip gvals)) args
      return (carry, ())) fun E' r => E' = E ∧ BlockRuns W E r.1
        (RowEnter (fun k => evalReduction W.machine.toFloatOps call space bounds (.mk stms result)
          params body ρ (neutrals.map .prim) k o) R ts rets o n point)
        (RowLeave (fun k => evalReduction W.machine.toFloatOps call space bounds (.mk stms result)
          params body ρ (neutrals.map .prim) k o) R ts rets o n) := by
  refine .inBlock _ _ fun i q vals enter => ?_
  obtain ⟨k, carried⟩ := i
  obtain ⟨rfl, lt, rfl, accs, rows, rfl, reduced, typed, upTo⟩ := enter
  refine ⟨?_, fun args E₀ sub types values => ?_⟩
  · rw [List.length_cons, List.length_cons, List.length_append, List.length_append,
      lowerAll_length, List.length_map, typed.length_eq, upTo.length, rowCount, lowers.length_eq]
  cases args with
  | nil => cases types
  | cons iv rest =>
    rw [List.map_cons] at types
    obtain ⟨index, types⟩ := List.cons.inj types
    rw [List.mapM_eq_some] at values
    obtain ⟨count, values⟩ := List.forall₂_cons.mp values
    have accWidth : (lowerAll accs).length = ts.length := by
      rw [lowerAll_length, typed.length_eq]
    have first := List.forall₂_take ts.length values
    have last := List.forall₂_drop ts.length values
    rw [List.take_left' accWidth] at first
    rw [List.drop_left' accWidth] at last
    have accTypes : (rest.take ts.length).map Value.ty = accTys := by
      rw [List.map_take, types, List.take_left' lowers.length_eq]
    have computes : Computes E₀ (rest.take ts.length) accs ts := by
      refine ⟨List.mapM_eq_some.mpr first, typed, HasType.all.mpr ?_⟩
      rw [accTypes]
      exact lowers
    dsimp only at reduced
    obtain ⟨next, reduced', post⟩ := Option.bind_eq_some_iff.mp (scans k lt)
    have advance := reduced'
    rw [evalReduction_succ, reduced, Option.bind_some] at advance
    have step : Lower.Runs W q E₀ _ _ := lowerScanStep_runs cfg calls h (stands.mono sub) dims split
      (gtids.mono sub) inside lt id width (sub.mapM sized) count index computes
      (List.mapM_eq_some.mpr last) upTo.shapes upTo.length advance post
    rw [List.take_append_drop] at step
    refine .bind step fun carry E₁ sub₁ hcarry => .pure ?_
    obtain ⟨accs', ps, rfl, typed', result, hasTypes, yields⟩ := hcarry
    exact ⟨_, yields, accs', _, rfl, reduced', typed', upTo.next result hasTypes⟩

end Step

section Loop

variable {W : World F} {point : List Nat} {E : Env F} {o : List Nat} {n : Nat}
  {ts rets : List PrimType} {reduce : Nat → Option (List (FVal F))} {R : List Nat → List (FVal F)}

/-- The loop along a row leaves complete rows. -/
theorem rowLoop_runs {block : Block} {zero ub one : Value} {inits : List Value}
    {carried : List (MVal F)} {tys : List MlirTy}
    (hzero : E zero = some (.scalar (.index (BitVec.ofInt 64 0)))) (hub : IsIndex E ub n)
    (hone : E one = some (.scalar (.index (BitVec.ofInt 64 1))))
    (seen : inits.mapM E = some carried) (length : tys.length = inits.length)
    (start : RowState reduce R ts rets o n 0 carried)
    (runs : BlockRuns W E block (RowEnter reduce R ts rets o n point)
      (RowLeave reduce R ts rets o n)) :
    Emit.Runs W point E (Emit.create .scfFor (zero :: ub :: one :: inits) tys [block]) fun E' vs =>
      ∃ d, vs.mapM E' = some d ∧ RowState reduce R ts rets o n n d := by
  obtain ⟨x, hx, toIndex⟩ := hub
  obtain ⟨v, rfl, nonneg, rfl⟩ := toIndex_eq_some toIndex
  have trips : v.toInt.toNat = v.toNat := by
    rw [BitVec.toInt_eq_toNat_of_msb nonneg, Int.toNat_natCast]
  have width : ∀ k d, RowState reduce R ts rets o v.toNat k d →
      d.length = ts.length + rets.length := by
    rintro k d ⟨accs, rows, rfl, _, typed, upTo⟩
    rw [List.length_append, lowerAll_length, List.length_map, typed.length_eq, upTo.length]
  let body : Region F := ⟨block.args, fun at' vals => execBlock W.machine W.call block at' E vals⟩
  obtain ⟨d, loop, done⟩ : ∃ d, runFor body point (.scalar (.index (BitVec.ofInt 64 0)) ::
      .scalar (.index v) :: .scalar (.index (BitVec.ofInt 64 1)) :: carried) = some d ∧
        RowState reduce R ts rets o v.toNat v.toInt.toNat d := by
    refine runFor_invariant (fun k lt d state => ?_) start
    rw [trips] at lt
    obtain ⟨d', ws, exec, leave⟩ := runs (k, d) point _ ⟨rfl, lt, rfl, state⟩
    exact ⟨d', ws, exec, (width _ _ leave).trans (width _ _ start).symm, leave⟩
  rw [trips] at done
  have all : (zero :: ub :: one :: inits).mapM E = some (.scalar (.index (BitVec.ofInt 64 0)) ::
      .scalar (.index v) :: .scalar (.index (BitVec.ofInt 64 1)) :: carried) := by
    rw [List.mapM_cons, hzero, List.mapM_cons, hx, List.mapM_cons, hone, seen]
    rfl
  have count : d.length = tys.length := by
    rw [width _ _ done, ← width _ _ start, length, (List.mapM_eq_some.mp seen).length_eq]
  refine (create_runs all ?_ count).weaken fun E' ws vs _ h => ⟨h.1, d, h.2.1, done⟩
  simp only [evalOp, regionsOf]
  rw [loop]
  rfl

end Loop

end FutharkMlir
