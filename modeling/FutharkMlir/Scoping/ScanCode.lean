import FutharkMlir.Kernels.Loads
import FutharkMlir.Scoping.Frame

namespace FutharkMlir

section Runs

variable {α β : Type}

theorem Lower.ops_kept {m : Lower α} {b b' : Builder} {a : α} (run : m.run b = .ok (a, b')) :
    b.ip.ops <+: b'.ip.ops := by
  obtain ⟨new, eq, _⟩ := (m.tracks run).ip.ops
  exact ⟨new, eq.symm⟩

theorem Lower.lift_ok {m : Emit α} {b b' : Builder} {a : α}
    (run : (liftM m : Lower α).run b = .ok (a, b')) : m.run b.ip = .ok (a, b'.ip) := by
  obtain ⟨ip, same, rfl⟩ := Lower.run_ofEmit run
  exact same

theorem Emit.create_ok {code : OpCode} {operands vs : List Value} {tys : List MlirTy}
    {regions : List Block} {ip ip' : Insertion}
    (run : (Emit.create code operands tys regions).run ip = .ok (vs, ip')) :
    .mk code operands vs regions ∈ ip'.ops ∧ vs.length = tys.length := by
  cases run
  exact ⟨List.mem_append_right _ (List.mem_singleton_self _), freshValues_length _ _ _⟩

theorem Emit.create1_ok {code : OpCode} {operands : List Value} {v : Value} {ty : MlirTy}
    {ip ip' : Insertion} (run : (Emit.create1 code operands ty).run ip = .ok (v, ip')) :
    .mk code operands [v] [] ∈ ip'.ops := by
  cases run
  exact List.mem_append_right _ (List.mem_singleton_self _)

theorem Emit.ops_kept {m : Emit α} {ip ip' : Insertion} {a : α} (run : m.run ip = .ok (a, ip')) :
    ip.ops <+: ip'.ops := by
  obtain ⟨new, eq, _⟩ := (m.tracks run).ops
  exact ⟨new, eq.symm⟩

theorem Emit.mapM_ok {f : α → Emit β} {xs : List α} {ys : List β} {ip ip' : Insertion}
    (run : (xs.mapM f).run ip = .ok (ys, ip')) :
    List.Forall₂ (fun x y => ∃ before after, (f x).run before = .ok (y, after) ∧
      after.ops <+: ip'.ops) xs ys := by
  induction xs generalizing ys ip with
  | nil =>
    rw [List.mapM_nil] at run
    obtain ⟨rfl, _⟩ := Tracked.pure_ok.mp run
    exact .nil
  | cons x xs ih =>
    rw [List.mapM_cons] at run
    obtain ⟨y, mid, first, run⟩ := Tracked.bind_ok.mp run
    obtain ⟨ys, last, rest, run⟩ := Tracked.bind_ok.mp run
    obtain ⟨rfl, rfl⟩ := Tracked.pure_ok.mp run
    exact .cons ⟨ip, mid, first, Emit.ops_kept rest⟩ (ih rest)

theorem Lower.inBlock_ok {argTys : List MlirTy} {body : List Value → Lower (List Value × α)}
    {b b' : Builder} {block : Block} {a : α}
    (run : (Lower.inBlock argTys body).run b = .ok ((block, a), b')) :
    ∃ inner inner', (body block.args).run inner = .ok ((block.yield, a), inner') ∧
      inner'.ip.ops = block.ops ∧ block.args.map Value.ty = argTys := by
  simp only [Lower.inBlock] at run
  split at run
  · rename_i yield x inner' inside
    cases run
    exact ⟨_, inner', inside, rfl, freshValues_types _ _ _⟩
  · cases run

theorem Emit.inBlock_ok {argTys : List MlirTy} {body : List Value → Emit (List Value)}
    {ip ip' : Insertion} {block : Block}
    (run : (Emit.inBlock argTys body).run ip = .ok (block, ip')) :
    ∃ inner inner', (body block.args).run inner = .ok (block.yield, inner') ∧
      inner'.ops = block.ops := by
  simp only [Emit.inBlock] at run
  split at run
  · rename_i yield inner' inside
    cases run
    exact ⟨_, inner', inside, rfl⟩
  · cases run

end Runs

/-- The values, each with its shape tied to the sizes if there are any. -/
def TiedIn (ops : List Op) (sizes vs ws : List Value) : Prop :=
  (sizes = [] ∧ ws = vs) ∨ List.Forall₂ (fun v w => .mk .tieShape (v :: sizes) [w] [] ∈ ops) vs ws

/-- The value, or its cast. -/
def CastIn (ops : List Op) (v w : Value) : Prop := w = v ∨ .mk .indexCast [v] [w] [] ∈ ops

/-- The body of the loop along a row: at the counter it inserts the elements into the rows that
it carries beside `k` accumulators. -/
def InsertsElements (k : Nat) (loop : Block) (gtid : Value) (elements : List Value) : Prop :=
  ∃ index carried sizes rows accs next, loop.args = index :: carried ∧ CastIn loop.ops index gtid ∧
    TiedIn loop.ops sizes (carried.drop k) rows ∧ elements.length = rows.length ∧
    loop.yield = accs ++ next ∧ accs.length = k ∧
    List.Forall₂ (fun p w => .mk .tensorInsert [p.1, p.2, index] [w] [] ∈ loop.ops)
      (elements.zip rows) next

/-- Loops over the whole space: over the outer dimensions, and in their body along the last one.
The rows which the inner loop leaves behind its `k` accumulators are stored, each in its result
and at the outer indices. -/
def StoresRows (k : Nat) (ops : List Op) (dims : IterationSpace) (vs gtids : List Value)
    (loop : Block) : Prop :=
  ∃ outer bound zero one outputs results sizes body inits carried inserts,
    List.Forall₂ (CastIn ops) (dims.map Dim.value) (outer ++ [bound]) ∧
    .mk (.constant (.scalar (.index 0))) [] [zero] [] ∈ ops ∧
    .mk (.constant (.scalar (.index 1))) [] [one] [] ∈ ops ∧
    .mk .scfForall (outer ++ outputs) results [body] ∈ ops ∧ TiedIn ops sizes results vs ∧
    List.Forall₂ (CastIn body.ops) (body.args.take outer.length) gtids ∧
    .mk .scfFor (zero :: bound :: one :: inits) carried [loop] ∈ body.ops ∧
    .mk .inParallel [] [] [inserts] ∈ body.ops ∧
    List.Forall₂ (fun row out => ∃ offsets sizes strides rest,
        .mk (.parallelInsertSlice offsets sizes strides)
          (row :: out :: (body.args.take outer.length ++ rest)) [] [] ∈ inserts.ops)
      (carried.drop k) (body.args.drop outer.length)

theorem TiedIn.mono {ops ops' : List Op} {sizes vs ws : List Value} (h : TiedIn ops sizes vs ws)
    (sub : ops ⊆ ops') : TiedIn ops' sizes vs ws :=
  h.imp_right fun each => each.imp fun _ _ member => sub member

theorem TiedIn.length {ops : List Op} {sizes vs ws : List Value} (h : TiedIn ops sizes vs ws) :
    vs.length = ws.length := by
  rcases h with ⟨_, rfl⟩ | each
  · rfl
  · exact each.length_eq

theorem CastIn.mono {ops ops' : List Op} {v w : Value} (h : CastIn ops v w) (sub : ops ⊆ ops') :
    CastIn ops' v w :=
  h.imp_right fun member => sub member

section Emitted

variable {ip ip' : Insertion}

theorem tieShapes_ok {sizes vs ws : List Value} (run : (tieShapes sizes vs).run ip = .ok (ws, ip')) :
    TiedIn ip'.ops sizes vs ws := by
  unfold tieShapes at run
  split at run
  · next none =>
    obtain ⟨rfl, _⟩ := Tracked.pure_ok.mp run
    exact .inl ⟨none, rfl⟩
  · refine .inr ((Emit.mapM_ok run).imp ?_)
    rintro v w ⟨before, after, made, kept⟩
    exact kept.subset (Emit.create1_ok made)

theorem castUnlessEqual_ok {v w : Value} {ty : MlirTy}
    (run : (castUnlessEqual v ty).run ip = .ok (w, ip')) : CastIn ip'.ops v w := by
  unfold castUnlessEqual at run
  split at run
  · obtain ⟨rfl, _⟩ := Tracked.pure_ok.mp run
    exact .inl rfl
  · exact .inr (Emit.create1_ok run)

theorem upperBounds_ok {dims : List Dim} {ws : List Value}
    (run : (upperBounds dims).run ip = .ok (ws, ip')) :
    List.Forall₂ (CastIn ip'.ops) (dims.map Dim.value) ws := by
  rw [List.forall₂_map_left_iff]
  refine (Emit.mapM_ok run).imp ?_
  rintro d w ⟨before, after, made, kept⟩
  exact (castUnlessEqual_ok made).mono kept.subset

theorem constantIndex_ok {n : Int} {v : Value} (run : (constantIndex n).run ip = .ok (v, ip')) :
    .mk (.constant (.scalar (.index n))) [] [v] [] ∈ ip'.ops := by
  cases run
  exact List.mem_append_right _ (List.mem_singleton_self _)

theorem bindIndices_ok {ps : List (Dim × Value)} {ctx c : Ctx}
    (run : (bindIndices ps ctx).run ip = .ok (c, ip')) :
    ∃ gtids, List.Forall₂ (CastIn ip'.ops) (ps.map Prod.snd) gtids ∧
      c = ctx.insertAll ((ps.map fun p => p.1.id).zip gtids) := by
  induction ps generalizing ctx ip with
  | nil =>
    rw [bindIndices] at run
    obtain ⟨rfl, _⟩ := Tracked.pure_ok.mp run
    exact ⟨[], .nil, rfl⟩
  | cons p ps ih =>
    rw [bindIndices] at run
    obtain ⟨gtid, mid, first, run⟩ := Tracked.bind_ok.mp run
    obtain ⟨gtids, casts, rfl⟩ := ih run
    exact ⟨gtid :: gtids,
      .cons ((castUnlessEqual_ok first).mono (Emit.ops_kept run).subset) casts, rfl⟩

theorem insertElements_ok {index : Value} {elements rows ws : List Value}
    (run : (insertElements index elements rows).run ip = .ok (ws, ip')) :
    List.Forall₂ (fun p w => .mk .tensorInsert [p.1, p.2, index] [w] [] ∈ ip'.ops)
      (elements.zip rows) ws := by
  refine (Emit.mapM_ok run).imp ?_
  rintro p w ⟨before, after, made, kept⟩
  exact kept.subset (Emit.create1_ok made)

theorem insertRows_ok {ivs rows outputs : List Value} {rowSize : Int ⊕ Value} {inserts : Block}
    (run : (insertRows ivs rows outputs rowSize).run ip = .ok (inserts, ip')) :
    ∀ p ∈ rows.zip outputs, ∃ offsets sizes strides rest,
      .mk (.parallelInsertSlice offsets sizes strides) (p.1 :: p.2 :: (ivs ++ rest)) [] [] ∈
        inserts.ops := by
  obtain ⟨inner, inner', run, ops⟩ := Emit.inBlock_ok run
  obtain ⟨made, mid, each, done⟩ := Tracked.bind_ok.mp run
  obtain ⟨_, rfl⟩ := Tracked.pure_ok.mp done
  intro p member
  obtain ⟨i, lt, rfl⟩ := List.getElem_of_mem member
  obtain ⟨length, all⟩ := List.forall₂_iff_get.mp (Emit.mapM_ok each)
  obtain ⟨before, after, created, kept⟩ := all i lt (length ▸ lt)
  have stored := Emit.create_ok created
  rw [List.length_eq_zero_iff.mp stored.2] at stored
  exact ⟨_, _, _, _, ops ▸ kept.subset stored.1⟩

end Emitted

theorem firstValues_ok {vs ws : List Value} {n : Nat} (h : firstValues vs n = .ok ws) :
    ws = vs.take n ∧ n ≤ vs.length := by
  unfold firstValues at h
  split at h
  · cases h
  · cases h
    exact ⟨rfl, Nat.le_of_not_lt ‹_›⟩

theorem firstValues_length {vs ws : List Value} {n : Nat} (h : firstValues vs n = .ok ws) :
    ws.length = n := by
  obtain ⟨rfl, enough⟩ := firstValues_ok h
  exact List.length_take_of_le enough

section Step

variable {cfg : Config} {s : ScanParts} {lowerStms : List VName → Ctx → Lower Ctx}
  {lowerOp lowerPost : Ctx → Lower (List Value × Ctx)} {ctx : Ctx} {b b' : Builder}

/-- What is lowered in the body of the loop along a row: the kernel, and behind it the
post-operator with its first parameters bound, whose first results are the elements. -/
structure StepCode (s : ScanParts) (lowerStms : List VName → Ctx → Lower Ctx)
    (lowerPost : Ctx → Lower (List Value × Ctx)) (ctx kernelCtx : Ctx) (loop : Block)
    (elements : List Value) : Prop where
  kernel : ∃ gtid b b', (lowerStms [] (ctx.insert s.scanDim.id gtid)).run b = .ok (kernelCtx, b') ∧
    b'.ip.ops <+: loop.ops ∧ InsertsElements s.scanValueCount loop gtid elements
  post : ∃ bound outputs c b b', bound.length = s.scanValueCount ∧
    (lowerPost (bindParams kernelCtx s.postParams bound)).run b = .ok ((outputs, c), b') ∧
    b'.ip.ops <+: loop.ops ∧ firstValues outputs s.outputCount = .ok elements

theorem lowerScanStep_ok (operator : ∀ c, (lowerOp c).Returns fun p => p.1.length = s.scanValueCount)
    {loop : Block} (length : loop.args.length = 1 + s.scanValueCount + s.outputCount)
    (run : (lowerScanStep cfg s lowerStms lowerOp lowerPost ctx loop.args).run b =
      .ok (loop.yield, b')) (ops : b'.ip.ops = loop.ops) :
    ∃ kernelCtx elements, StepCode s lowerStms lowerPost ctx kernelCtx loop elements := by
  obtain ⟨args, _, carry⟩ := loop
  cases ops
  dsimp only [Block.args, Block.yield] at length run
  unfold lowerScanStep at run
  obtain ⟨index, b₀, first, run⟩ := Tracked.bind_ok.mp run
  obtain ⟨counter, rfl⟩ := Lower.liftExcept_ok.mp first
  obtain ⟨rows, b₁, tied, run⟩ := Tracked.bind_ok.mp run
  have afterTied := Lower.ops_kept run
  obtain ⟨gtid, b₂, counted, run⟩ := Tracked.bind_ok.mp run
  have afterCounted := Lower.ops_kept run
  obtain ⟨kernelCtx, b₃, kernel, run⟩ := Tracked.bind_ok.mp run
  have afterKernel := Lower.ops_kept run
  obtain ⟨results, b₄, _, run⟩ := Tracked.bind_ok.mp run
  obtain ⟨lambdaCtx, b₅, _, run⟩ := Tracked.bind_ok.mp run
  obtain ⟨⟨nextAccs, _⟩, b₆, op, run⟩ := Tracked.bind_ok.mp run
  obtain ⟨bound, b₇, taken, run⟩ := Tracked.bind_ok.mp run
  split at run
  · cases run
  obtain ⟨⟨outputs, c⟩, b₈, post, run⟩ := Tracked.bind_ok.mp run
  have afterPost := Lower.ops_kept run
  obtain ⟨elements, b₉, first', run⟩ := Tracked.bind_ok.mp run
  obtain ⟨nextRows, b₁₀, inserted, run⟩ := Tracked.bind_ok.mp run
  obtain ⟨rfl, rfl⟩ := Tracked.pure_ok.mp run
  obtain ⟨front, rfl⟩ := Lower.liftExcept_ok.mp taken
  obtain ⟨chosen, rfl⟩ := Lower.liftExcept_ok.mp first'
  have accs : nextAccs.length = s.scanValueCount := operator _ _ _ _ op
  have tied' := (tieShapes_ok (Lower.lift_ok tied)).mono afterTied.subset
  have cast := (castUnlessEqual_ok (Lower.lift_ok counted)).mono afterCounted.subset
  obtain ⟨args', rfl⟩ : ∃ args', args = index :: args' := by
    cases args with
    | nil => cases indexed_eq counter
    | cons x args' =>
      cases indexed_eq counter
      exact ⟨args', rfl⟩
  have carried : (List.drop s.scanValueCount args').length = s.outputCount := by
    rw [List.length_cons] at length
    rw [List.length_drop]
    omega
  refine ⟨kernelCtx, elements, ⟨gtid, b₂, b₃, kernel, afterKernel, ?_⟩,
    ⟨bound, outputs, c, _, _, firstValues_length front, post, afterPost, chosen⟩⟩
  refine ⟨index, args', _, rows, nextAccs, nextRows, rfl, cast, tied', ?_, rfl, accs,
    insertElements_ok (Lower.lift_ok inserted)⟩
  rw [firstValues_length chosen, ← tied'.length]
  exact carried.symm

end Step

section Scan

variable {cfg : Config} {lvl : SegLevel} {space : SegSpace} {result neutral shape : List SubExp}
  {ret : List Ty} {params postParams : List Param} {lowerStms : List VName → Ctx → Lower Ctx}
  {lowerOp lowerPost : Ctx → Lower (List Value × Ctx)} {ctx : Ctx} {b b' : Builder}
  {vs : List Value}

theorem segOpTypes_length {dims : List (VName × SubExp)} {tys : List MlirTy}
    (h : segOpTypes dims ret = .ok tys) : tys.length = ret.length :=
  (Except.mapM_eq_ok.mp h).length_eq.symm

theorem lowerSubExps_length {ses : List SubExp} :
    (lowerSubExps ctx ses).Returns fun vs => vs.length = ses.length :=
  (Tracked.Returns.mapM (fun _ => .any _) ses).weaken fun _ each => each.length_eq.symm

theorem tensorEmpties_length {tys : List MlirTy} {sizes : List Value} :
    (tensorEmpties tys sizes).Returns fun vs => vs.length = tys.length :=
  (Tracked.Returns.mapM (fun _ => .any _) tys).weaken fun _ each => each.length_eq.symm

theorem lowerSegScan_ok
    (operator : ∀ c, (lowerOp c).Returns fun p => p.1.length = neutral.length)
    (run : (lowerSegScan cfg lvl space result ret params neutral shape postParams lowerStms lowerOp
      lowerPost ctx).run b = .ok (vs, b')) :
    ∃ dims b₀ b₁ scanDim rowSizes gtids kernelCtx loop elements,
      (lowerSegSpace space ctx).run b₀ = .ok (dims, b₁) ∧ dims.getLast? = some scanDim ∧
      StoresRows neutral.length b'.ip.ops dims vs gtids loop ∧
      StepCode ⟨scanDim, params, postParams, result, neutral.length, ret.length, rowSizes⟩ lowerStms
        lowerPost (ctx.insertAll ((dims.dropLast.map Dim.id).zip gtids)) kernelCtx loop elements := by
  unfold lowerSegScan at run
  obtain ⟨_, _, _, run⟩ := Tracked.bind_ok.mp run
  split at run
  · cases run
  obtain ⟨dims, _, space', run⟩ := Tracked.bind_ok.mp run
  split at run
  · cases run
  rename_i scanDim last
  obtain ⟨neutrals, _, lowered, run⟩ := Tracked.bind_ok.mp run
  obtain ⟨tys, _, types, run⟩ := Tracked.bind_ok.mp run
  obtain ⟨sizes, _, _, run⟩ := Tracked.bind_ok.mp run
  obtain ⟨outputs, _, _, run⟩ := Tracked.bind_ok.mp run
  obtain ⟨zero, _, zeroRun, run⟩ := Tracked.bind_ok.mp run
  have afterZero := Lower.ops_kept run
  obtain ⟨one, _, oneRun, run⟩ := Tracked.bind_ok.mp run
  have afterOne := Lower.ops_kept run
  obtain ⟨bound, _, boundRun, run⟩ := Tracked.bind_ok.mp run
  have afterBound := Lower.ops_kept run
  obtain ⟨outer, _, outerRun, run⟩ := Tracked.bind_ok.mp run
  have afterOuter := Lower.ops_kept run
  dsimp only at run
  obtain ⟨⟨body, _⟩, _, bodyRun, run⟩ := Tracked.bind_ok.mp run
  obtain ⟨results, _, forallRun, run⟩ := Tracked.bind_ok.mp run
  have afterForall := Lower.ops_kept run
  have tied := tieShapes_ok (Lower.lift_ok run)
  obtain ⟨_, _, bodyRun, bodyOps, argTypes⟩ := Lower.inBlock_ok bodyRun
  obtain ⟨c, _, indices, bodyRun⟩ := Tracked.bind_ok.mp bodyRun
  have afterIndices := Lower.ops_kept bodyRun
  obtain ⟨rows, _, rowsRun, bodyRun⟩ := Tracked.bind_ok.mp bodyRun
  obtain ⟨⟨loop, _⟩, _, loopRun, bodyRun⟩ := Tracked.bind_ok.mp bodyRun
  obtain ⟨carried, _, forRun, bodyRun⟩ := Tracked.bind_ok.mp bodyRun
  have afterFor := Lower.ops_kept bodyRun
  obtain ⟨firstRow, _, _, bodyRun⟩ := Tracked.bind_ok.mp bodyRun
  obtain ⟨⟨rowShape, _⟩, _, _, bodyRun⟩ := Tracked.bind_ok.mp bodyRun
  obtain ⟨rowDim, _, _, bodyRun⟩ := Tracked.bind_ok.mp bodyRun
  obtain ⟨inserts, _, insertsRun, bodyRun⟩ := Tracked.bind_ok.mp bodyRun
  obtain ⟨_, _, parallelRun, bodyRun⟩ := Tracked.bind_ok.mp bodyRun
  have afterParallel := Lower.ops_kept bodyRun
  obtain ⟨_, _, loopRun, loopOps, loopTypes⟩ := Lower.inBlock_ok loopRun
  obtain ⟨carry, _, step, loopRun⟩ := Tracked.bind_ok.mp loopRun
  obtain ⟨done, rfl⟩ := Tracked.pure_ok.mp loopRun
  obtain ⟨doneBody, rfl⟩ := Tracked.pure_ok.mp bodyRun
  have count : neutrals.length = neutral.length := lowerSubExps_length _ _ _ (Lower.lift_ok lowered)
  have outputCount : tys.length = ret.length := segOpTypes_length (Lower.liftExcept_ok.mp types).1
  have rowCount : rows.length = (tys.map rowType).length :=
    tensorEmpties_length _ _ _ (Lower.lift_ok rowsRun)
  have carriedCount := (Emit.create_ok (Lower.lift_ok forRun)).2
  have uppers := upperBounds_ok (Lower.lift_ok outerRun)
  have argCount := congrArg List.length argTypes
  have loopCount := congrArg List.length loopTypes
  simp only [List.length_map, List.length_append, List.length_replicate, List.length_cons]
    at rowCount carriedCount argCount loopCount
  rw [count] at step insertsRun carriedCount loopCount
  have yields : carry = loop.yield := congrArg Prod.fst done
  rw [yields] at step
  obtain ⟨kernelCtx, elements, code⟩ := lowerScanStep_ok operator (by simp only; omega) step loopOps
  have split : dims = dims.dropLast ++ [scanDim] := by
    rw [List.dropLast_append_getLast? scanDim last]
  have outerCount : dims.dropLast.length = outer.length := by
    rw [← uppers.length_eq, List.length_map]
  have ids : (dims.dropLast.zip (body.args.take outer.length)).map (fun p => p.1.id) =
      dims.dropLast.map Dim.id := by
    have enough : dims.dropLast.length ≤ (body.args.take outer.length).length := by
      rw [List.length_take, outerCount]
      omega
    change List.map (Dim.id ∘ Prod.fst) _ = _
    rw [← List.map_map, List.map_fst_zip enough]
  have ivs : (dims.dropLast.zip (body.args.take outer.length)).map Prod.snd =
      body.args.take outer.length := by
    refine List.map_snd_zip ?_
    rw [outerCount]
    exact List.length_take_le _ _
  obtain ⟨gtids, casts, rfl⟩ := bindIndices_ok (Lower.lift_ok indices)
  rw [ivs] at casts
  rw [ids] at code
  refine ⟨dims, _, _, scanDim, _, gtids, kernelCtx, loop, elements, Lower.lift_ok space', last, ?_,
    code⟩
  have parallel := Emit.create_ok (Lower.lift_ok parallelRun)
  rw [List.length_eq_zero_iff.mp parallel.2] at parallel
  refine ⟨outer, bound, zero, one, outputs, results, sizes, body, _, carried, inserts, ?_,
    afterZero.subset (constantIndex_ok (Lower.lift_ok zeroRun)),
    afterOne.subset (constantIndex_ok (Lower.lift_ok oneRun)),
    afterForall.subset (Emit.create_ok (Lower.lift_ok forallRun)).1, tied,
    (casts.imp fun _ _ cast => cast.mono (bodyOps ▸ afterIndices.subset)),
    bodyOps ▸ afterFor.subset (Emit.create_ok (Lower.lift_ok forRun)).1,
    bodyOps ▸ afterParallel.subset parallel.1, ?_⟩
  · rw [split, List.map_append]
    exact List.rel_append (uppers.imp fun _ _ cast => cast.mono afterOuter.subset)
      (.cons ((castUnlessEqual_ok (Lower.lift_ok boundRun)).mono afterBound.subset) .nil)
  · refine List.forall₂_iff_zip.mpr ⟨?_, fun {row out} member => ?_⟩
    · rw [List.length_drop, List.length_drop]
      omega
    · exact insertRows_ok (Lower.lift_ok insertsRun) (row, out) member

end Scan

end FutharkMlir
