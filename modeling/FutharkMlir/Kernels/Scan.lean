import FutharkMlir.Kernels.ScanRow

namespace FutharkMlir

variable {F : Type}

section Space

variable {W : World F} {point : List Nat} {E : Env F} {ctx : Ctx} {o : List Nat}
  {dims : List (VName × SubExp)} {bounds : List (IntType × Nat)} {ds : IterationSpace}

theorem Spans.snoc {i : Nat} {d : Dim} (spans : Spans E i dims bounds (ds ++ [d])) :
    ∃ dims' p bounds' b, dims = dims' ++ [p] ∧ bounds = bounds' ++ [b] ∧
      Spans E i dims' bounds' ds ∧ d.StandsFor E (i + ds.length) p.1 p.2 b := by
  induction ds generalizing i dims bounds with
  | nil =>
    cases dims with
    | nil => cases bounds <;> exact spans.elim
    | cons p dims =>
      cases bounds with
      | nil => exact spans.elim
      | cons b bounds =>
        obtain ⟨head, rest⟩ := spans
        cases dims with
        | nil =>
          cases bounds with
          | nil => exact ⟨[], p, [], b, rfl, rfl, trivial, head⟩
          | cons b' bounds => exact rest.elim
        | cons p' dims => cases bounds <;> exact rest.elim
  | cons d' ds ih =>
    cases dims with
    | nil => cases bounds <;> exact spans.elim
    | cons p dims =>
      cases bounds with
      | nil => exact spans.elim
      | cons b bounds =>
        obtain ⟨head, rest⟩ := spans
        obtain ⟨dims', p', bounds', b', rfl, rfl, before, last⟩ := ih rest
        refine ⟨p :: dims', p', b :: bounds', b', rfl, rfl, ⟨head, before⟩, ?_⟩
        rwa [List.length_cons, Nat.add_comm ds.length, ← Nat.add_assoc]

theorem Dim.StandsFor.type {d : Dim} {i : Nat} {x : VName} {se : SubExp} {b : IntType × Nat}
    (h : d.StandsFor E i x se b) : d.value.ty = .int b.1.getWidth := by
  obtain ⟨v, _, _, rep⟩ := h.value
  exact rep.2

theorem Dim.StandsFor.mono {E' : Env F} {d : Dim} {i : Nat} {x : VName} {se : SubExp}
    {b : IntType × Nat} (h : d.StandsFor E i x se b) (sub : E.Sub E') :
    d.StandsFor E' i x se b := by
  obtain ⟨id, index, dyn, v, msb, toNat, rep⟩ := h
  exact ⟨id, index, dyn, v, msb, toNat, rep.mono sub⟩

theorem Dim.StandsFor.upper_runs {d : Dim} {i : Nat} {x : VName} {se : SubExp}
    {b : IntType × Nat} (h : d.StandsFor E i x se b) :
    Emit.Runs W point E (castUnlessEqual d.value .index) fun E' u => IsIndex E' u b.2 := by
  obtain ⟨v, msb, toNat, rep⟩ := h.value
  have position : (PVal.int b.1 v : PVal F).toIndex = some b.2 := by
    simp [PVal.toIndex, msb, toNat]
  rw [castUnlessEqual, if_neg]
  · exact (indexCast_runs rep position).weaken fun _ _ _ _ hu => ⟨hu.1, hu.2.1⟩
  · rw [h.type]
    intro eq
    cases eq

theorem upperBounds_runs {i : Nat} (spans : Spans E i dims bounds ds) :
    Emit.Runs W point E (upperBounds ds) fun E' us =>
      List.Forall₂ (IsIndex E') us (bounds.map Prod.snd) := by
  refine Emit.Effects.mapM (fun _ _ _ _ sub h => h.mono sub) ?_
  rw [List.forall₂_map_right_iff]
  induction ds generalizing i dims bounds with
  | nil =>
    cases dims with
    | nil =>
      cases bounds with
      | nil => exact .nil
      | cons b bounds => exact spans.elim
    | cons p dims => cases bounds <;> exact spans.elim
  | cons d ds ih =>
    cases dims with
    | nil => cases bounds <;> exact spans.elim
    | cons p dims =>
      cases bounds with
      | nil => exact spans.elim
      | cons b bounds => exact .cons (fun E' sub => (spans.1.mono sub).upper_runs) (ih spans.2)

/-- The gtids of the outer dimensions are bound to the indices of the iteration. -/
theorem bindIndices_runs {i : Nat} (spans : Spans E i dims bounds ds) {ivs : List Value}
    (seen : ivs.mapM E = some (o.map MVal.ofIndex)) (index : ∀ iv ∈ ivs, iv.ty = .index)
    (length : o.length = bounds.length) :
    Emit.Runs W point E (bindIndices (ds.zip ivs) ctx) fun E' c => ∃ gvals,
      c = ctx.insertAll ((dims.map Prod.fst).zip gvals) ∧
        Computes E' gvals (gtidValues bounds o) ((bounds.map Prod.fst).map .int) := by
  induction ds generalizing i dims bounds ivs o ctx E with
  | nil =>
    cases dims with
    | nil =>
      cases bounds with
      | nil => exact .pure ⟨rfl, [], rfl, rfl, .nil, .nil⟩
      | cons b bounds => exact spans.elim
    | cons p dims => cases bounds <;> exact spans.elim
  | cons d ds ih =>
    cases dims with
    | nil => cases bounds <;> exact spans.elim
    | cons p dims =>
      cases bounds with
      | nil => exact spans.elim
      | cons b bounds =>
        cases o with
        | nil => cases length
        | cons k o =>
          rw [List.mapM_eq_some] at seen
          cases seen with
          | @cons iv _ ivs _ hiv hivs =>
            obtain ⟨first, later⟩ := List.forall_mem_cons.mp index
            obtain ⟨head, rest⟩ := spans
            rw [List.zip_cons_cons, bindIndices, head.type, castUnlessEqual_index first]
            refine .bind (counter_runs hiv) fun gtid E₁ sub₁ hgtid => ?_
            refine (ih (rest.mono sub₁) (sub₁.mapM (List.mapM_eq_some.mpr hivs)) later
              (Nat.succ.inj length)).weaken fun E' ws c sub hc => ⟨hc.1, ?_⟩
            obtain ⟨gvals, rfl, computes⟩ := hc.2
            have one : Computes E' [gtid] [gtidValue b k] [.int b.1] :=
              ⟨by simp [(hgtid.mono sub).1, lowerAll, gtidValue], .cons rfl .nil,
                .cons (hasType_of rfl hgtid.2) .nil⟩
            refine ⟨gtid :: gvals, ?_, one.append computes⟩
            rw [head.id]
            rfl

theorem inBounds_small (small : ∀ b ∈ bounds, b.2 ≤ 2 ^ (b.1.getWidth - 1))
    (inside : InBounds (bounds.map Prod.snd) o) : ∀ k ∈ o, k < 2 ^ 63 := by
  unfold InBounds at inside
  rw [List.forall₂_map_left_iff] at inside
  induction inside with
  | nil => simp
  | @cons b k _ _ lt _ ih =>
    obtain ⟨head, tail⟩ := List.forall_mem_cons.mp small
    have le : 2 ^ (b.1.getWidth - 1) ≤ 2 ^ 63 :=
      Nat.pow_le_pow_right (by decide) (by cases b.1 <;> decide)
    exact List.forall_mem_cons.mpr ⟨by omega, ih tail⟩

theorem Dim.StandsFor.row_sizes {d : Dim} {i : Nat} {x : VName} {se : SubExp}
    {b : IntType × Nat} (h : d.StandsFor E i x se b) {s : Int} (extent : toShapeDim se = .ok s)
    {ub : Value} (upper : IsIndex E ub b.2) :
    SizesOf E (if d.isDynamic then [ub] else []) [s] [b.2] ∧
      IsRowSize E b.2 (if FutharkMlir.isDynamic s then .inr ub else .inl s) := by
  obtain ⟨s', extent', dynamic, static⟩ := h.isDynamic
  cases extent.symm.trans extent'
  cases dyn : FutharkMlir.isDynamic s with
  | true =>
    rw [dynamic, dyn, if_pos rfl, if_pos rfl]
    refine ⟨⟨[b.2], .cons upper .nil, ?_⟩, upper⟩
    simp [resolveShape, dyn]
  | false =>
    obtain rfl := static dyn
    rw [dynamic, dyn, if_neg (by decide), if_neg (by decide)]
    refine ⟨⟨[], .nil, ?_⟩, rfl⟩
    simp [resolveShape, dyn]

end Space

section Rows

variable (cfg : Config) {prog : Prog} {W : World F} {point : List Nat} {E : Env F} {ctx : Ctx}
  {Γ : Types} {ρ : Store F} {call : String → List (FVal F) → Option (List (FVal F))}
  {space : SegSpace} {bounds : List (IntType × Nat)} {stms : List Stm} {result : List SubExp}
  {params postParams : List Param} {body postBody : Body} {neutral : List SubExp}
  {ts rets : List PrimType} {outer : List Nat} {n : Nat} {neutrals : List (PVal F)}
  {R : List Nat → List (FVal F)}

def ForallEnter (point outer : List Nat) (outs : List (Tensor (Scalar F))) (o at' : List Nat)
    (vals : List (MVal F)) : Prop :=
  at' = point ∧ InBounds outer o ∧ vals = o.map .ofIndex ++ outs.map .tensor

def ForallLeave (R : List Nat → List (FVal F)) (rets : List PrimType) (outer : List Nat) (n : Nat)
    (args : List Value) (o : List Nat) (vals : List (MVal F)) (ws : List (Write F)) : Prop :=
  vals = [] ∧ ∃ rows, ws = rowWrites (args.drop outer.length) o n rows ∧ RowsUpTo R rets o n n rows

theorem indexed_row {s : Int} {elems : List ElemTy} {ty : MlirTy}
    (h : indexed (tensorTypes [s] elems) 0 = .ok ty) : ∃ e, ty = .tensor [s] e := by
  cases elems with
  | nil => cases h
  | cons e elems =>
    cases h
    exact ⟨e, rfl⟩

/-- The iteration at an outer index inserts the rows of the scan there. -/
theorem scanBody_runs (calls : CallsAgree W prog call)
    (h : ScanKernel prog W.machine.toFloatOps Γ ρ space stms result params body postParams postBody
      neutral ts rets bounds outer n neutrals)
    (scans : ∀ o j, InBounds outer o → j < n → evalScan W.machine.toFloatOps call space bounds
      (.mk stms result) params body postParams postBody ρ (neutrals.map .prim) o j =
        some (R (o ++ [j])))
    (stands : Stands E ctx Γ ρ) {dims : List (VName × SubExp)} {p : VName × SubExp}
    {bs : List (IntType × Nat)} {b : IntType × Nat} {ds : IterationSpace} {d : Dim} {i : Nat}
    (hdims : space.dims = dims ++ [p]) (hbounds : bounds = bs ++ [b]) (spans : Spans E 0 dims bs ds)
    (last : d.StandsFor E i p.1 p.2 b) {nvs : List Value} (computes : Computes E nvs neutrals ts)
    {s : Int} (extent : toShapeDim p.2 = .ok s) {elems : List ElemTy}
    (width : elems.length = rets.length) {shape : List Int} {zero ub one : Value}
    (hzero : E zero = some (.scalar (.index (BitVec.ofInt 64 0)))) (hub : IsIndex E ub n)
    (hone : E one = some (.scalar (.index (BitVec.ofInt 64 1))))
    {outs : List (Tensor (Scalar F))} (outCount : outs.length = elems.length)
    (fits : ∀ t ∈ outs, t.shape = outer ++ [n]) :
    Lower.Runs W point E (Lower.inBlock
      (List.replicate outer.length MlirTy.index ++ tensorTypes shape elems) fun regionArgs => do
        let ivs := regionArgs.take outer.length
        let sharedOutputs := regionArgs.drop outer.length
        let local' ← bindIndices (ds.zip ivs) ctx
        let initialRows ← tensorEmpties (tensorTypes [s] elems) (if d.isDynamic then [ub] else [])
        let initialLoopValues := nvs ++ initialRows
        let loopTys := initialLoopValues.map Value.ty
        let (loopBody, _) ← Lower.inBlock (.index :: loopTys) fun args => do
          let carry ← lowerScanStep cfg ⟨d, params, postParams, result, nvs.length, rets.length,
            if d.isDynamic then [ub] else []⟩ (lowerKernelStms cfg prog calleeOf stms)
            (lowerBody cfg prog calleeOf body) (lowerBody cfg prog calleeOf postBody) local' args
          return (carry, ())
        let loopResults ← Emit.create .scfFor (zero :: ub :: one :: initialLoopValues) loopTys
          [loopBody]
        let firstRow ← indexed (tensorTypes [s] elems) 0
        let (rowShape, _) ← getRankedType firstRow
        let rowDim ← indexed rowShape 0
        let rowSize := if isDynamic rowDim then Sum.inr ub else Sum.inl rowDim
        let inserts ← insertRows ivs (loopResults.drop nvs.length) sharedOutputs rowSize
        let _ ← Emit.create .inParallel [] [] [inserts]
        return ([], ())) fun E' r => E' = E ∧ r.1.args.Nodup ∧
          r.1.args.length = outer.length + elems.length ∧
          BlockRuns W E r.1 (ForallEnter point outer outs)
            (ForallLeave R rets outer n r.1.args) := by
  have regionCount : (List.replicate outer.length MlirTy.index ++ tensorTypes shape elems).length =
      outer.length + elems.length := by
    rw [List.length_append, List.length_replicate, tensorTypes, List.length_map]
  refine (Lower.Effects.inBlockArgs _ (ForallLeave R rets outer n) fun o q vals enter => ?_).weaken
    fun E' ws r _ hr => ⟨hr.1, hr.2.1, hr.2.2.1, hr.2.2.2.1.trans regionCount, hr.2.2.2.2⟩
  obtain ⟨rfl, inside, rfl⟩ := enter
  obtain ⟨rfl, rfl⟩ := h.ends hbounds
  have points : o.length = bs.length := by rw [inside.length, List.length_map]
  refine ⟨?_, fun args E₀ sub types values => ?_⟩
  · rw [regionCount, List.length_append, List.length_map, List.length_map, outCount, inside.length]
  have ivWidth : (o.map (MVal.ofIndex (F := F))).length = (bs.map Prod.snd).length := by
    rw [List.length_map, inside.length]
  rw [List.mapM_eq_some] at values
  have ivSeen := List.forall₂_take (bs.map Prod.snd).length values
  have outSeen := List.forall₂_drop (bs.map Prod.snd).length values
  rw [List.take_left' ivWidth, ← List.mapM_eq_some] at ivSeen
  rw [List.drop_left' ivWidth, ← List.mapM_eq_some] at outSeen
  have index : ∀ iv ∈ args.take (bs.map Prod.snd).length, iv.ty = .index := by
    intro iv member
    have type := List.mem_map_of_mem (f := Value.ty) member
    rw [List.map_take, types, List.take_left' (List.length_replicate ..)] at type
    exact List.eq_of_mem_replicate type
  have small : ∀ k ∈ o, k < 2 ^ 63 := by
    refine inBounds_small (fun b' member => evalSpace_small h.bounded b' ?_) inside
    rw [hbounds]
    exact List.mem_append_left _ member
  refine .bind (.lift (bindIndices_runs (spans.mono sub) ivSeen index points))
    fun c E₁ sub₁ hc => ?_
  obtain ⟨gvals, rfl, gtids⟩ := hc
  have sub₀₁ := sub.trans sub₁
  obtain ⟨sizes, _⟩ := (last.mono sub₀₁).row_sizes extent (hub.mono sub₀₁)
  obtain ⟨xs, sized⟩ : ∃ xs, (if d.isDynamic then [ub] else []).mapM E₁ = some xs := by
    obtain ⟨ns, indices, _⟩ := sizes
    obtain ⟨xs, seen, _⟩ := IsIndex.mapM indices
    exact ⟨xs, seen⟩
  refine .bind (.lift (tensorEmpties_runs sizes elems)) fun initialRows E₂ sub₂ hrows => ?_
  obtain ⟨rows₀, rowsSeen, rowCount, rowShapes⟩ := isEmpty_tensors hrows
  have sub₀₂ := sub₀₁.trans sub₂
  dsimp only
  have dimNames : space.dims.map Prod.fst = dims.map Prod.fst ++ [p.1] := by
    rw [hdims, List.map_append]
    rfl
  have rowTys : (initialRows.map Value.ty).length = rets.length := by
    rw [List.length_map, hrows.length_eq, tensorTypes, List.length_map, width]
  rw [List.map_append, computes.static.length_eq]
  refine .bind (rowBlock_runs cfg calls h (stands.mono sub₀₂) dimNames hbounds (gtids.mono sub₂)
    inside last.id last.type (sub₂.mapM sized) (HasType.all.mp computes.static) rowTys
    fun j lt => scans o j inside lt) fun r E₃ sub₃ hr => ?_
  obtain ⟨rfl, runs⟩ := hr
  have start : RowState (fun k => evalReduction W.machine.toFloatOps call space bounds
      (.mk stms result) params body ρ (neutrals.map .prim) k o) R ts rets o b.2 0
      (lowerAll neutrals ++ rows₀.map .tensor) := by
    refine ⟨neutrals, rows₀, rfl, rfl, h.typed, ?_, rowShapes, fun j lt => absurd lt (by omega)⟩
    rw [rowCount, hrows.length_eq, tensorTypes, List.length_map, width]
  have carried : (nvs ++ initialRows).mapM E₃ = some (lowerAll neutrals ++ rows₀.map .tensor) := by
    rw [List.mapM_append, sub₀₂.mapM computes.values, rowsSeen]
    rfl
  have tyCount : (nvs.map Value.ty ++ initialRows.map Value.ty).length =
      (nvs ++ initialRows).length := by
    rw [← List.map_append, List.length_map]
  refine .bind (.lift (rowLoop_runs (sub₀₂ _ _ hzero) (hub.mono sub₀₂) (sub₀₂ _ _ hone) carried
    tyCount start runs)) fun loopResults E₄ sub₄ hloop => ?_
  obtain ⟨_, complete, accs, rows, rfl, _, typed, upTo⟩ := hloop
  have sub₀₄ := sub₀₂.trans sub₄
  refine .bind (.liftExcept _) fun firstRow E₅ sub₅ hfirst => ?_
  obtain ⟨rfl, hfirst⟩ := hfirst
  obtain ⟨e, rfl⟩ := indexed_row hfirst
  refine .bind (.liftExcept _) fun ranked E₆ sub₆ hranked => ?_
  obtain ⟨rfl, hranked⟩ := hranked
  cases hranked
  dsimp only
  refine .bind (.liftExcept _) fun rowDim E₇ sub₇ hrowDim => ?_
  obtain ⟨rfl, hrowDim⟩ := hrowDim
  cases hrowDim
  have accCount : (lowerAll accs).length = ts.length := by
    rw [lowerAll_length, typed.length_eq]
  rw [List.mapM_eq_some] at complete
  have completed := List.forall₂_drop ts.length complete
  rw [List.drop_left' accCount, ← List.mapM_eq_some] at completed
  obtain ⟨_, isSize⟩ := (last.mono sub₀₄).row_sizes extent (hub.mono sub₀₄)
  have later := (sub₁.trans sub₂).trans sub₄
  refine .bind (.lift (insertRows_runs inside small (later.mapM ivSeen) isSize completed
    (later.mapM outSeen) upTo.shapes fits)) fun inserts E₈ sub₈ hinserts => ?_
  obtain ⟨rfl, exec⟩ := hinserts
  have eval : evalOp W.machine W.call q .inParallel [] [] []
      (regionsOf W.machine W.call [inserts] E₈) =
        some ([], rowWrites (args.drop (bs.map Prod.snd).length) o b.2 rows) := by
    simp only [evalOp, regionsOf, exec]
    rfl
  refine .bindWrites (.lift (create_effects rfl eval rfl)) fun _ E₉ ws sub₉ hws => .pure ?_
  exact ⟨[], rfl, rfl, rows, by rw [hws.1, List.append_nil], upTo⟩

end Rows

section Forall

variable {W : World F} {point : List Nat} {E : Env F} {rets : List PrimType} {outer : List Nat}
  {n : Nat} {R : List Nat → List (FVal F)} {outs : List (Tensor (Scalar F))}

/-- A parallel loop over the outer indices, each of whose iterations inserts one row of `n`
elements in each of so many outputs, at its own index. -/
def WritesRows (W : World F) (point outer : List Nat) (n count : Nat) (E : Env F) (op : Op) : Prop :=
  ∃ operands results body ubs outs rows, op = .mk .scfForall operands results [body] ∧
    operands.mapM E = some (ubs ++ outs.map .tensor) ∧ ubs.mapM MVal.toIndex = some outer ∧
    outs.length = count ∧ (body.args.drop outer.length).Nodup ∧
    InsertsRows ⟨body.args, fun at' vals => execBlock W.machine W.call body at' E vals⟩ point outer
      n outs rows

theorem inBounds_snoc {p : List Nat} (h : InBounds (outer ++ [n]) p) :
    ∃ o j, p = o ++ [j] ∧ InBounds outer o ∧ j < n := by
  induction outer generalizing p with
  | nil =>
    cases h with
    | @cons _ j _ _ lt rest =>
      cases rest
      exact ⟨[], j, rfl, .nil, lt⟩
  | cons m outer ih =>
    cases h with
    | @cons _ i _ p lt rest =>
      obtain ⟨o, j, rfl, inside, below⟩ := ih rest
      exact ⟨i :: o, j, rfl, .cons lt inside, below⟩

/-- Every row is there after the loop, in whatever order the iterations are run. -/
theorem forall_runs {block : Block} {ubs outputs : List Value} {xs : List (MVal F)}
    {tys : List MlirTy} (upper : ubs.mapM E = some xs) (toIndex : xs.mapM MVal.toIndex = some outer)
    (seen : outputs.mapM E = some (outs.map .tensor)) (count : tys.length = outs.length)
    (outCount : outs.length = rets.length) (fits : ∀ t ∈ outs, t.shape = outer ++ [n])
    (nodup : block.args.Nodup) (width : block.args.length = outer.length + outs.length)
    (runs : BlockRuns W E block (ForallEnter point outer outs)
      (ForallLeave R rets outer n block.args)) :
    (∀ results, WritesRows W point outer n rets.length E
      (.mk .scfForall (ubs ++ outputs) results [block])) ∧
    Emit.Runs W point E (Emit.create .scfForall (ubs ++ outputs) tys [block]) fun E' vs =>
      vs.map Value.ty = tys ∧ ∃ results, vs.mapM E' = some (results.map .tensor) ∧
        (∀ t ∈ results, t.shape = outer ++ [n]) ∧
        KernelAtEach R (outer ++ [n]) rets fun p ps => elementsAt results p = ps.map PVal.lower := by
  have each : ∀ o, InBounds outer o → ∃ rows,
      execBlock W.machine W.call block point E (o.map .ofIndex ++ outs.map .tensor) =
        some ([], rowWrites (block.args.drop outer.length) o n rows) ∧
      RowsUpTo R rets o n n rows := by
    intro o inside
    obtain ⟨_, _, exec, rfl, rows, rfl, upTo⟩ := runs o point _ ⟨rfl, inside, rfl⟩
    exact ⟨rows, exec, upTo⟩
  choose! rows exec upTo using each
  have inserts : InsertsRows
      ⟨block.args, fun at' vals => execBlock W.machine W.call block at' E vals⟩ point outer n outs
        rows :=
    fun o inside => ⟨exec o inside, (upTo o inside).length.trans outCount.symm,
      (upTo o inside).shapes⟩
  have targets : (block.args.drop outer.length).Nodup := nodup.sublist (List.drop_sublist _ _)
  have all : (ubs ++ outputs).mapM E = some (xs ++ outs.map .tensor) := by
    rw [List.mapM_append, upper, seen]
    rfl
  refine ⟨fun results => ⟨_, results, block, xs, outs, rows, rfl, all, toIndex, outCount, targets,
    inserts⟩, ?_⟩
  have argCount : (block.args.drop outer.length).length = outs.length := by
    rw [List.length_drop, width, Nat.add_sub_cancel_left]
  obtain ⟨results, loop, shapes, elements⟩ :=
    runForall_rows (M := W.machine) toIndex count targets argCount inserts
  have resCount : (results.map MVal.tensor).length = tys.length := by
    have lengths := congrArg List.length shapes
    rw [List.length_map, List.length_map] at lengths
    rw [List.length_map, lengths, count]
  refine (create_runs all ?_ resCount).weaken fun E' ws vs _ h =>
    ⟨h.1, h.2.2, results, h.2.1, ?_, ?_⟩
  · simp only [evalOp, regionsOf]
    rw [loop]
    rfl
  · intro t member
    have shape := List.mem_map_of_mem (f := Tensor.shape) member
    rw [shapes] at shape
    obtain ⟨old, hold, eq⟩ := List.mem_map.mp shape
    rw [← eq, fits old hold]
  · intro p hp
    obtain ⟨o, j, rfl, inside, lt⟩ := inBounds_snoc hp
    obtain ⟨ps, result, hasTypes, row⟩ := (upTo o inside).written j lt
    exact ⟨ps, result, hasTypes, (elements o j inside lt).trans row⟩

end Forall

section Lowering

variable (cfg : Config) {prog : Prog} {W : World F} {point : List Nat} {E : Env F} {ctx : Ctx}
  {Γ : Types} {ρ : Store F} {call : String → List (FVal F) → Option (List (FVal F))}
  {space : SegSpace} {bounds : List (IntType × Nat)} {stms : List Stm} {result : List SubExp}
  {params postParams : List Param} {body postBody : Body} {neutral : List SubExp}
  {ts rets : List PrimType} {outer : List Nat} {n : Nat} {neutrals : List (PVal F)}
  {R : List Nat → List (FVal F)}

theorem computes_prims {vs : List Value} {ps : List (PVal F)}
    (rep : List.Forall₂ (fun v p => Represents E v (.prim p)) vs ps)
    (typed : List.Forall₂ PVal.HasType ps ts) : Computes E vs ps ts := by
  have represents : List.Forall₂ (Represents E) vs (ps.map .prim) := List.forall₂_map_right_iff.mpr rep
  have static : List.Forall₂ HasType vs ts := by
    clear represents
    induction rep generalizing ts with
    | nil =>
      cases typed
      exact .nil
    | cons hv _ ih =>
      cases typed with
      | cons hp hps => exact .cons (hasType_of hp hv.2) (ih hps)
  obtain ⟨qs, eq, computes⟩ := computes_of represents static
  have same : ps = qs := List.map_injective_iff.mpr (fun _ _ h => FVal.prim.inj h) eq
  rwa [same]

theorem toShapeType_snoc {dims : List (VName × SubExp)} {p : VName × SubExp} {shape : List Int}
    (h : toShapeType ((dims ++ [p]).map Prod.snd) = .ok shape) :
    ∃ shape' s, shape = shape' ++ [s] ∧ toShapeDim p.2 = .ok s := by
  rw [toShapeType, Except.mapM_eq_ok, List.forall₂_map_left_iff] at h
  induction dims generalizing shape with
  | nil =>
    obtain ⟨s, _, extent, rest, rfl⟩ := List.forall₂_cons_left_iff.mp h
    cases rest
    exact ⟨[], s, rfl, extent⟩
  | cons q dims ih =>
    obtain ⟨s, rest, _, later, rfl⟩ := List.forall₂_cons_left_iff.mp h
    obtain ⟨shape', s', rfl, extent⟩ := ih later
    exact ⟨s :: shape', s', rfl, extent⟩

theorem rowTypes_eq (shape : List Int) (s : Int) (elems : List ElemTy) :
    (tensorTypes (shape ++ [s]) elems).map rowType = tensorTypes [s] elems := by
  rw [tensorTypes, tensorTypes, List.map_map]
  refine List.map_congr_left fun e _ => ?_
  simp [rowType]

theorem lowerSegScan_passes (calls : CallsAgree W prog call) (stands : Stands E ctx Γ ρ)
    (h : ScanKernel prog W.machine.toFloatOps Γ ρ space stms result params body postParams postBody
      neutral ts rets bounds outer n neutrals)
    (scans : ∀ o j, InBounds outer o → j < n → evalScan W.machine.toFloatOps call space bounds
      (.mk stms result) params body postParams postBody ρ (neutrals.map .prim) o j =
        some (R (o ++ [j]))) {lvl : SegLevel} {shape : List SubExp} :
    Lower.Passes W point E (lowerSegScan cfg lvl space result (rets.map .prim) params neutral shape
      postParams (lowerKernelStms cfg prog calleeOf stms) (lowerBody cfg prog calleeOf body)
      (lowerBody cfg prog calleeOf postBody) ctx) (WritesRows W point outer n rets.length)
      fun E' vs => vs.length = rets.length ∧ ∀ k v, vs[k]? = some v →
        ∃ a, Represents E' v (.array a) ∧ IsResult R rets (outer ++ [n]) k a := by
  unfold lowerSegScan
  refine .bind (.liftExcept _) fun _ E₁ sub₁ _ => ?_
  split
  · exact .throw
  refine .bind (.lift (lowerSegDims_runs (stands.mono sub₁).rep 0 h.bounded))
    fun ds' E₂ sub₂ spans => ?_
  split
  · exact .throw
  rename_i d hd
  obtain ⟨ds, rfl⟩ : ∃ ds, ds' = ds ++ [d] := by
    obtain ⟨ds, eq⟩ := List.getLast?_eq_some_iff.mp hd
    exact ⟨ds, eq⟩
  dsimp only
  have stands₂ := (stands.mono sub₁).mono sub₂
  refine .bind (.lift (lowerPrims_runs stands₂.rep h.values)) fun nvs E₃ sub₃ hnvs => ?_
  refine .bind (.liftExcept _) fun tys E₄ sub₄ htys => ?_
  obtain ⟨rfl, htys⟩ := htys
  obtain ⟨shape', hshape⟩ := spans.shape
  obtain ⟨elems, helems, rfl⟩ := segOpTypes_eq htys hshape
  have computes := computes_prims hnvs h.typed
  refine .bind (.lift (spaceSizes_runs (spans.mono sub₃) hshape)) fun sizes E₅ sub₅ hsizes => ?_
  refine .bind (.lift (tensorEmpties_runs hsizes elems)) fun outputs E₆ sub₆ houtputs => ?_
  refine .bind (.lift createConstant_runs) fun zero E₇ sub₇ hzero => ?_
  refine .bind (.lift createConstant_runs) fun one E₈ sub₈ hone => ?_
  obtain ⟨dims, p, bs, b, hdims, hbounds, before, last⟩ := spans.snoc
  have sub₂₈ := ((((sub₃.trans sub₅).trans sub₆).trans sub₇).trans sub₈)
  refine .bind (.lift (last.mono sub₂₈).upper_runs) fun ub E₉ sub₉ hub => ?_
  rw [List.dropLast_concat]
  refine .bind (.lift (upperBounds_runs ((before.mono sub₂₈).mono sub₉)))
    fun ubs E₁₀ sub₁₀ hubs => ?_
  obtain ⟨shape₁, s, rfl, extent⟩ := toShapeType_snoc (hdims ▸ hshape)
  obtain ⟨rfl, rfl⟩ := h.ends hbounds
  have ubCount : ubs.length = (bs.map Prod.snd).length := hubs.length_eq
  have lowered : List.Forall₂ (fun t e => lowerPrimType t = .ok e) rets elems := by
    rw [Except.mapM_eq_ok, List.forall₂_map_left_iff] at helems
    exact helems
  obtain ⟨outs, outSeen, outCount, fits⟩ := isEmpty_tensors houtputs
  rw [h.extents] at fits hsizes
  have tyCount : (tensorTypes (shape₁ ++ [s]) elems).length = outs.length := by
    rw [outCount, houtputs.length_eq]
  have elemCount : outs.length = elems.length := by
    rw [← tyCount, tensorTypes, List.length_map]
  have sub₃₁₀ := ((((sub₅.trans sub₆).trans sub₇).trans sub₈).trans sub₉).trans sub₁₀
  have sub₆₁₀ := ((sub₇.trans sub₈).trans sub₉).trans sub₁₀
  have sub₈₁₀ := sub₉.trans sub₁₀
  have retCount : (rets.map Ty.prim).length = rets.length := List.length_map _
  rw [ubCount, rowTypes_eq, retCount]
  refine .bind (scanBody_runs cfg calls h scans (stands₂.mono (sub₃.trans sub₃₁₀)) hdims hbounds
    (before.mono (sub₂₈.trans sub₈₁₀)) (last.mono (sub₂₈.trans sub₈₁₀)) (computes.mono sub₃₁₀) extent
    lowered.length_eq.symm ((sub₈.trans sub₈₁₀) _ _ hzero.1) (hub.mono sub₁₀) (sub₈₁₀ _ _ hone.1)
    elemCount fits) fun r E₁₁ sub₁₁ hr => ?_
  obtain ⟨rfl, nodup, width, runs⟩ := hr
  rw [← elemCount] at width
  obtain ⟨xs, upper, toIndex⟩ := IsIndex.mapM hubs
  obtain ⟨writes, loop⟩ : (∀ results, WritesRows W point (bs.map Prod.snd) b.2 rets.length E₁₁
      (.mk .scfForall (ubs ++ outputs) results [r.1])) ∧ Emit.Runs W point _ _ _ :=
    forall_runs upper toIndex (sub₆₁₀.mapM outSeen) tyCount
      (elemCount.trans lowered.length_eq.symm) fits nodup width runs
  refine .create writes loop fun vs E₁₂ sub₁₂ hvs => ?_
  obtain ⟨types, results, seen, shapes, each⟩ := hvs
  obtain ⟨ns, indices, resolved⟩ := ((hsizes.mono sub₆).mono sub₆₁₀).mono sub₁₂
  obtain ⟨ys, sized, _⟩ := IsIndex.mapM indices
  refine (Lower.Effects.lift (tieShapes_runs sized seen)).weaken fun E' ws us _ hus => ⟨hus.1, ?_⟩
  exact results_represent (hus.2.2.trans types) (resolveShape_fits resolved) hus.2.1 shapes lowered
    each

/-- Each iteration of the parallel loop inserts one row in each result, and after it, in
whatever order they run, result `k` holds the inclusive scan of every row. -/
theorem segScan_computes (calls : CallsAgree W prog call) (stands : Stands E ctx Γ ρ)
    (h : ScanKernel prog W.machine.toFloatOps Γ ρ space stms result params body postParams postBody
      neutral ts rets bounds outer n neutrals)
    (scans : ∀ o j, InBounds outer o → j < n → evalScan W.machine.toFloatOps call space bounds
      (.mk stms result) params body postParams postBody ρ (neutrals.map .prim) o j =
        some (R (o ++ [j]))) {lvl : SegLevel} {shape : List SubExp} {lambdaRet postRet : List Ty}
    {b b' : Builder} {vs : List Value}
    (run : (lowerSegOp cfg prog calleeOf (.segScan lvl space (rets.map .prim) (.mk stms result)
      [.mk (.mk params lambdaRet body) neutral shape] (.mk postParams postRet postBody)) ctx).run b =
        .ok (vs, b')) (below : E.Below b.ip.next) :
    ∃ before op after E₁ E', b'.ip.ops = b.ip.ops ++ before ++ op :: after ∧
      execOps W.machine W.call before point E = some (E₁, []) ∧
      WritesRows W point outer n rets.length E₁ op ∧
      execOps W.machine W.call (op :: after) point E₁ = some (E', []) ∧
      vs.length = rets.length ∧ ∀ k v, vs[k]? = some v →
        ∃ a, Represents E' v (.array a) ∧ IsResult R rets (outer ++ [n]) k a := by
  unfold lowerSegOp at run
  dsimp only at run
  exact lowerSegScan_passes cfg calls stands h scans b vs b' run below

end Lowering

section Examples

def postParams : List Param := [⟨"s", .prim (.int .int64)⟩]

def prefixSums : SegOp :=
  .segScan .thread doublingKernel.space [.prim (.int .int64)] (.mk loadStms [.var "x"])
    [.mk (.mk sumParams [.prim (.int .int64)] sumBody) [.const (.createInt 0 64)] []]
    (.mk postParams [.prim (.int .int64)] (.mk [] [.var "s"]))

def triangular (p : List Nat) : List (FVal Unit) :=
  [.prim (.int .int64 (BitVec.ofNat 64 (p.headD 0 * (p.headD 0 + 1) / 2)))]

theorem prefixSums_kernel : ScanKernel emptyProg unitMachine.toFloatOps (numbersTypes 4)
    (numbersStore 4) doublingKernel.space loadStms [.var "x"] sumParams sumBody postParams
    (.mk [] [.var "s"]) [.const (.createInt 0 64)] [.int .int64] [.int .int64] [(.int64, 4)] [] 4
    [.int .int64 0] where
  toFoldKernel := summing_kernel.toFoldKernel
  postType := rfl
  postTypes := rfl
  postFresh := numbersTypes_fresh (by decide) (by decide)

theorem prefixSums_scans {o : List Nat} {j : Nat} (inside : InBounds [] o) (lt : j < 4) :
    evalScan unitMachine.toFloatOps (fun _ _ => none) doublingKernel.space [(.int64, 4)]
      (.mk loadStms [.var "x"]) sumParams sumBody postParams (.mk [] [.var "s"]) (numbersStore 4)
      [.prim (.int .int64 0)] o j = some (triangular (o ++ [j])) := by
  cases inside
  match j, lt with
  | 0, _ => rfl
  | 1, _ => rfl
  | 2, _ => rfl
  | 3, _ => rfl

theorem segScan_computes_prefixSums : ∃ vs b' before op after E₁ E' v a,
    (lowerSegOp releaseConfig emptyProg calleeOf prefixSums (numbersCtx 4)).run afterArray =
      .ok (vs, b') ∧ b'.ip.ops = [] ++ before ++ op :: after ∧
    execOps unitMachine (fun _ _ => none) before [] (numbersEnv 4) = some (E₁, []) ∧
    WritesRows ⟨unitMachine, fun _ _ => none⟩ [] [] 4 1 E₁ op ∧
    execOps unitMachine (fun _ _ => none) (op :: after) [] E₁ = some (E', []) ∧
    vs[0]? = some v ∧ Represents E' v (.array a) ∧ IsResult triangular [.int .int64] [4] 0 a := by
  let W : World Unit := ⟨unitMachine, fun _ _ => none⟩
  have calls : CallsAgree W emptyProg fun _ _ => none := emptyProg_calls W _
  obtain ⟨⟨vs, b'⟩, run⟩ := Except.exists_ok (x := (lowerSegOp releaseConfig emptyProg calleeOf
    prefixSums (numbersCtx 4)).run afterArray) (by decide +kernel)
  have spelled : prefixSums = .segScan .thread doublingKernel.space ([.int .int64].map .prim)
      (.mk loadStms [.var "x"])
      [.mk (.mk sumParams [.prim (.int .int64)] sumBody) [.const (.createInt 0 64)] []]
      (.mk postParams [.prim (.int .int64)] (.mk [] [.var "s"])) := rfl
  have run' := run
  rw [spelled] at run'
  obtain ⟨before, op, after, E₁, E', ops, exec, writes, exec', length, each⟩ :=
    segScan_computes (W := W) releaseConfig calls (numbers_stands 4) prefixSums_kernel
      (fun _ _ inside lt => prefixSums_scans inside lt) run' (numbers_below 4)
  have lt : 0 < vs.length := by rw [length]; exact Nat.zero_lt_one
  obtain ⟨a, represents, isResult⟩ := each 0 _ (List.getElem?_eq_getElem lt)
  exact ⟨vs, b', before, op, after, E₁, E', _, a, run, ops, exec, writes, exec',
    List.getElem?_eq_getElem lt, represents, isResult⟩

end Examples

end FutharkMlir
