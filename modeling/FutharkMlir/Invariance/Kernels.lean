import FutharkMlir.Invariance.Operations

namespace FutharkMlir

def Dim.rename (ρ : VName → VName) (d : Dim) : Dim := { d with id := ρ d.id }

def AffineRead.rename (ρ : VName → VName) (r : AffineRead) : AffineRead :=
  { r with result := ρ r.result, array := ρ r.array }

variable {c : Change} {ctx ctx' : Ctx}

theorem lowerSegDims_alike (env : c.Renames ctx ctx') (i : Nat) (dims : List (VName × SubExp)) :
    Emit.Alike c (fun ds ds' => ds' = ds.map (Dim.rename c.rename)) (lowerSegDims ctx i dims)
      (lowerSegDims ctx' i (dims.map (renameDim c.rename))) := by
  induction dims generalizing i with
  | nil => exact .pure rfl
  | cons dim rest ih =>
    simp only [List.map_cons, renameDim, lowerSegDims, toShapeDim_rename]
    refine .next (lowerSubExp_alike env _) fun value => .next (.except _) fun extent => ?_
    refine .bind (ih (i + 1)) ?_
    rintro ds _ rfl
    exact .pure rfl

theorem lowerSegSpace_alike (env : c.Renames ctx ctx') (space : SegSpace) :
    Emit.Alike c (fun ds ds' => ds' = ds.map (Dim.rename c.rename)) (lowerSegSpace space ctx)
      (lowerSegSpace (space.rename c.rename) ctx') :=
  lowerSegDims_alike env 0 space.dims

@[simp] theorem spaceSizes_rename {ρ : VName → VName} (dims : List Dim) :
    spaceSizes (dims.map (Dim.rename ρ)) = spaceSizes dims := by
  simp only [spaceSizes, List.filter_map, List.mapM_map]
  rfl

@[simp] theorem upperBounds_rename {ρ : VName → VName} (dims : List Dim) :
    upperBounds (dims.map (Dim.rename ρ)) = upperBounds dims := by
  simp only [upperBounds, List.mapM_map]
  rfl

theorem spaceSizes_alike (dims : List Dim) : Emit.Alike c Eq (spaceSizes dims) (spaceSizes dims) :=
  mapM_alike _ fun _ _ => indexCast_alike _ _

theorem castUnlessEqual_alike (v : Value) (ty : MlirTy) :
    Emit.Alike c Eq (castUnlessEqual v ty) (castUnlessEqual v ty) := by
  unfold castUnlessEqual
  split
  · exact .pure rfl
  · exact indexCast_alike _ _

theorem upperBounds_alike (dims : List Dim) :
    Emit.Alike c Eq (upperBounds dims) (upperBounds dims) :=
  mapM_alike _ fun _ _ => castUnlessEqual_alike _ _

theorem bindGtids_alike (env : c.Renames ctx ctx') (dims : List Dim) :
    Emit.Alike c c.Renames (bindGtids dims ctx)
      (bindGtids (dims.map (Dim.rename c.rename)) ctx') := by
  induction dims generalizing ctx ctx' with
  | nil => exact .pure env
  | cons d rest ih =>
    refine .next (.create1 _ _ _) fun idx => .next (indexCast_alike _ _) fun v => ?_
    exact ih (env.insert d.id v)

theorem bindIndices_alike (env : c.Renames ctx ctx') (pairs : List (Dim × Value)) :
    Emit.Alike c c.Renames (bindIndices pairs ctx)
      (bindIndices (pairs.map fun p => (p.1.rename c.rename, p.2)) ctx') := by
  induction pairs generalizing ctx ctx' with
  | nil => exact .pure env
  | cons p rest ih =>
    exact .next (castUnlessEqual_alike _ _) fun gtid => ih (env.insert p.1.id gtid)

theorem gtidIndex_rename (space : IterationSpace) (d : DimIndex) :
    gtidIndex (space.map (Dim.rename c.rename)) (d.rename c.rename) = gtidIndex space d := by
  rcases d with (_ | x) | ⟨_, _, _⟩
  · rfl
  · simp only [DimIndex.rename, SubExp.rename, gtidIndex, List.find?_map, Option.map_map]
    have same : (fun d : Dim => decide (d.id = c.rename x)) ∘ Dim.rename c.rename =
        fun d => decide (d.id = x) := by
      funext d
      simp [Dim.rename, c.injective.eq_iff]
    rw [same]
    rfl
  · rfl

theorem toAffineRead_rename (vn : VName) (exp : Exp) (space : IterationSpace) :
    toAffineRead (c.rename vn) (exp.rename c.rename) (space.map (Dim.rename c.rename)) =
      (toAffineRead vn exp space).map (AffineRead.rename c.rename) := by
  cases exp with
  | basicOp op =>
    cases op with
    | index arr dims =>
      simp only [Exp.rename, BasicOp.rename, toAffineRead, List.mapM_map, List.length_map,
        Function.comp_def, gtidIndex_rename, Option.map_map]
      rfl
    | _ => rfl
  | _ => rfl

theorem findSegOpAffineReads_agrees (space : IterationSpace) (stms : List Stm) :
    Agree c.Errors c.Stops (fun rs rs' => rs' = rs.map (AffineRead.rename c.rename))
      (findSegOpAffineReads space stms)
      (findSegOpAffineReads (space.map (Dim.rename c.rename)) (renameStms c.rename stms)) := by
  induction stms with
  | nil => exact .ok rfl
  | cons stm rest ih =>
    obtain ⟨pat, exp⟩ := stm
    rcases pat with _ | ⟨elem, _ | ⟨_, _⟩⟩
    · exact .error (.refl _)
    · refine .bind ih ?_
      rintro reads _ rfl
      refine .ok ?_
      have read := toAffineRead_rename (c := c) elem.name exp space
      simp only [List.map_append, PatElem.rename, read]
      congr 1
      cases toAffineRead elem.name exp space <;> rfl
    · exact .error (.refl _)

section Bindings

variable {cfg cfg' : Config} (builds : c.Builds cfg cfg')

theorem bindParams_renames (env : c.Renames ctx ctx') (params : List Param) (vs : List Value) :
    c.Renames (bindParams ctx params vs)
      (bindParams ctx' (params.map (Param.rename c.rename)) vs) := by
  have names : ((params.map (Param.rename c.rename)).zip vs).map (fun p => (p.1.name, p.2)) =
      c.bindings ((params.zip vs).map fun p => (p.1.name, p.2)) := by
    simp only [List.zip_map_left, List.map_map, Change.bindings]
    rfl
  rw [bindParams, bindParams, names]
  exact env.insertAll _

include builds

/-- What is bound to the names of a list, as far as the two are zipped. -/
theorem zipEqual_renames {α : Type} (name : α → VName) (rename : α → α)
    (renamed : ∀ x, name (rename x) = c.rename (name x)) (env : c.Renames ctx ctx') (xs : List α)
    (vs : List Value) :
    Agree c.Errors c.Stops
      (fun ps qs => c.Renames (ctx.insertAll (ps.map fun p => (name p.1, p.2)))
        (ctx'.insertAll (qs.map fun p => (name p.1, p.2))))
      (zipEqual cfg xs vs) (zipEqual cfg' (xs.map rename) vs) := by
  refine (zipEqual_agrees builds rename xs vs).weaken ?_
  rintro ps _ rfl
  have names : (ps.map fun p => (rename p.1, p.2)).map (fun p => (name p.1, p.2)) =
      c.bindings (ps.map fun p => (name p.1, p.2)) := by
    simp [Change.bindings, Function.comp_def, renamed]
  rw [names]
  exact env.insertAll _

theorem bindOperands_agrees (env : c.Renames ctx ctx') (params : List Param)
    (accs returns : List Value) :
    Agree c.Errors c.Stops c.Renames (bindOperands cfg ctx params accs returns)
      (bindOperands cfg' ctx' (params.map (Param.rename c.rename)) accs returns) := by
  unfold bindOperands
  rw [List.length_map]
  refine .bind (assertThat_agrees builds _) fun _ _ _ => ?_
  refine .bind (R := fun ps qs => qs = ps.map (Param.rename c.rename)) ?_ ?_
  · simp only [dropBegin, List.length_map]
    split
    · exact .error (.refl _)
    · exact .ok (List.map_drop).symm
  · rintro rest _ rfl
    refine .bind (zipEqual_renames builds Param.name (Param.rename c.rename) (fun _ => rfl)
      (bindParams_renames env params accs) rest returns) fun ps qs h => ?_
    exact .ok h

end Bindings

section Bodies

variable {T : List FuncSig × List FuncOp → List FuncSig × List FuncOp → Prop}
  {cfg cfg' : Config} (builds : c.Builds cfg cfg')
  {lowerStms lowerStms' : List VName → Ctx → Lower Ctx}
  (body : ∀ skip ctx ctx', c.Renames ctx ctx' →
    Lower.Alike c T c.Renames (lowerStms skip ctx) (lowerStms' (skip.map c.rename) ctx'))
  {lowerOp lowerOp' lowerPost lowerPost' : Ctx → Lower (List Value × Ctx)}
  (op : ∀ ctx ctx', c.Renames ctx ctx' →
    Lower.Alike c T (WithSame c.Renames) (lowerOp ctx) (lowerOp' ctx'))
  (post : ∀ ctx ctx', c.Renames ctx ctx' →
    Lower.Alike c T (WithSame c.Renames) (lowerPost ctx) (lowerPost' ctx'))

include builds body

theorem lowerSegOpKernelBody_alike (env : c.Renames ctx ctx') (blockArgs : List Value)
    (reads : List AffineRead) (space : IterationSpace) (result : List SubExp) :
    Lower.Alike c T (WithSame c.Renames)
      (lowerSegOpKernelBody cfg blockArgs reads space lowerStms result ctx)
      (lowerSegOpKernelBody cfg' blockArgs (reads.map (AffineRead.rename c.rename))
        (space.map (Dim.rename c.rename)) lowerStms' (result.map (SubExp.rename c.rename)) ctx') := by
  unfold lowerSegOpKernelBody
  have skips : (reads.map (AffineRead.rename c.rename)).map AffineRead.result =
      (reads.map AffineRead.result).map c.rename := by
    simp [AffineRead.rename, Function.comp_def]
  rw [skips]
  refine .bind (.emit (.lift (zipEqual_renames builds AffineRead.result
    (AffineRead.rename c.rename) (fun _ => rfl) env reads blockArgs))) fun ps qs bound => ?_
  refine .bind (.emit (bindGtids_alike bound space)) fun _ _ inner => ?_
  refine .bind (body _ _ _ inner) fun _ _ kernel => ?_
  exact .next (.emit (lowerSubExps_alike kernel result)) fun returns => .pure ⟨rfl, kernel⟩

theorem lowerSegMap_alike (env : c.Renames ctx ctx') (lvl : SegLevel) (space : SegSpace)
    (stms : List Stm) (result : List SubExp) (ret : List Ty) :
    Lower.Alike c T Eq (lowerSegMap cfg lvl space stms result ret lowerStms ctx)
      (lowerSegMap cfg' lvl (space.rename c.rename) (renameStms c.rename stms)
        (result.map (SubExp.rename c.rename)) (ret.map (Ty.rename c.rename)) lowerStms' ctx') := by
  unfold lowerSegMap
  refine .next (.emit (.except _)) fun _ => .bind (.emit (lowerSegSpace_alike env space)) ?_
  rintro dims _ rfl
  refine .bind (.emit (.lift (findSegOpAffineReads_agrees dims stms))) ?_
  rintro reads _ rfl
  have arrays : (reads.map (AffineRead.rename c.rename)).map AffineRead.array =
      (reads.map AffineRead.array).map c.rename := by
    simp [AffineRead.rename, Function.comp_def]
  have maps : (reads.map (AffineRead.rename c.rename)).map AffineRead.indexMap =
      reads.map AffineRead.indexMap := by
    simp [AffineRead.rename, Function.comp_def]
  simp only [arrays, maps, List.length_map, SegSpace.rename, segOpTypes_rename, spaceSizes_rename]
  refine .next (.emit (lookups_alike env _)) fun inputs => .next (.emit (.except _)) fun types => ?_
  refine .next (.emit (spaceSizes_alike dims)) fun sizes => ?_
  refine .next (.emit (tensorEmpties_alike _ _)) fun outputs => ?_
  refine .bind (.lowerBlock (R := fun _ _ => True) _ fun args => ?_) ?_
  · refine .bind (lowerSegOpKernelBody_alike builds body env _ _ _ _) ?_
    rintro ⟨results, _⟩ ⟨_, _⟩ ⟨rfl, _⟩
    exact .next (.emit (assertThat_alike builds _)) fun _ => .pure ⟨rfl, trivial⟩
  · rintro ⟨block, _⟩ ⟨_, _⟩ ⟨rfl, _⟩
    exact .emit (.create _ _ _ _)

include op

theorem lowerSegRed_alike (env : c.Renames ctx ctx') (lvl : SegLevel) (space : SegSpace)
    (stms : List Stm) (result : List SubExp) (params : List Param) (lambdaRet : List Ty)
    (neutral shape : List SubExp) :
    Lower.Alike c T Eq
      (lowerSegRed cfg lvl space stms result params lambdaRet neutral shape lowerStms lowerOp ctx)
      (lowerSegRed cfg' lvl (space.rename c.rename) (renameStms c.rename stms)
        (result.map (SubExp.rename c.rename)) (params.map (Param.rename c.rename))
        (lambdaRet.map (Ty.rename c.rename)) (neutral.map (SubExp.rename c.rename))
        (shape.map (SubExp.rename c.rename)) lowerStms' lowerOp' ctx') := by
  unfold lowerSegRed
  refine .next (.emit (.except _)) fun _ => ?_
  simp only [ne_eq, List.map_eq_nil_iff]
  split
  · exact .lowerUndefined
  refine .next (.emit (lowerSubExps_alike env neutral)) fun neutrals => ?_
  refine .bind (.emit (lowerSegSpace_alike env space)) ?_
  rintro dims _ rfl
  simp only [List.length_map]
  split
  · exact .lowerUndefined
  refine .bind (.emit (.lift (findSegOpAffineReads_agrees dims stms))) ?_
  rintro reads _ rfl
  have arrays : (reads.map (AffineRead.rename c.rename)).map AffineRead.array =
      (reads.map AffineRead.array).map c.rename := by
    simp [AffineRead.rename, Function.comp_def]
  have maps : (reads.map (AffineRead.rename c.rename)).map AffineRead.indexMap =
      reads.map AffineRead.indexMap := by
    simp [AffineRead.rename, Function.comp_def]
  have outer : (dims.map (Dim.rename c.rename)).filter (fun d => ¬ d.index = dims.length - 1) =
      (dims.filter fun d => ¬ d.index = dims.length - 1).map (Dim.rename c.rename) := by
    rw [List.filter_map]
    rfl
  simp only [arrays, maps, SegSpace.rename, ← List.map_take, segOpTypes_rename, outer,
    spaceSizes_rename]
  refine .next (.emit (lookups_alike env _)) fun inputs => .next (.emit (.except _)) fun types => ?_
  refine .next (.emit (spaceSizes_alike _)) fun sizes => ?_
  refine .next (.emit (.lift (zipEqual_same builds _ _))) fun pairs => ?_
  refine .next (.emit (mapM_alike _ fun _ _ => ?_)) fun outputs => ?_
  · exact .next (tensorEmpty_alike _ _) fun _ => .create1 _ _ _
  refine .bind (.lowerBlock (R := fun _ _ => True) _ fun args => ?_) ?_
  · refine .bind (lowerSegOpKernelBody_alike builds body env _ _ _ _) ?_
    rintro ⟨returns, kernel⟩ ⟨_, kernel'⟩ ⟨rfl, inner⟩
    refine .bind (.emit (.lift (bindOperands_agrees builds inner _ _ _))) fun _ _ operands => ?_
    refine .bind (op _ _ operands) ?_
    rintro ⟨results, _⟩ ⟨_, _⟩ ⟨rfl, _⟩
    exact .pure ⟨rfl, trivial⟩
  · rintro ⟨block, _⟩ ⟨_, _⟩ ⟨rfl, _⟩
    exact .emit (.create _ _ _ _)

theorem lowerSegHist_alike (env : c.Renames ctx ctx') (lvl : SegLevel) (space : SegSpace)
    (stms : List Stm) (result : List SubExp) (ret : List Ty)
    (ops : List (List VName × List Param)) :
    Lower.Alike c T Eq
      (lowerSegHist cfg lvl space stms result ret ops lowerStms lowerOp ctx)
      (lowerSegHist cfg' lvl (space.rename c.rename) (renameStms c.rename stms)
        (result.map (SubExp.rename c.rename)) (ret.map (Ty.rename c.rename))
        (ops.map fun p => (p.1.map c.rename, p.2.map (Param.rename c.rename))) lowerStms' lowerOp'
        ctx') := by
  unfold lowerSegHist
  refine .next (.emit (.except _)) fun _ => ?_
  refine .next (lowerSegMap_alike builds body env lvl space stms result ret) fun inputs => ?_
  rcases inputs with _ | ⟨indices, _ | ⟨values, _ | ⟨_, _⟩⟩⟩ <;>
    rcases ops with _ | ⟨⟨destNames, params⟩, _ | ⟨_, _⟩⟩ <;>
    first | exact .lowerUndefined | skip
  refine .next (.emit (lookups_alike env destNames)) fun dests => ?_
  rcases dests with _ | ⟨dest, _ | ⟨_, _⟩⟩ <;> first | exact .lowerUndefined | skip
  refine .next (.emit (.except _)) fun ranked => ?_
  dsimp only
  split
  · exact .lowerUndefined
  have types : (params.map (Param.rename c.rename)).mapM (fun p => lowerTy p.ty) =
      params.mapM fun p => lowerTy p.ty := by
    simp [List.mapM_map, Param.rename, Function.comp_def]
  rw [types]
  refine .next (.emit (.except _)) fun opInputTypes => ?_
  refine .bind (.lowerBlock (R := fun _ _ => True) _ fun blk => ?_) ?_
  · refine .bind (.emit (.lift (zipEqual_renames builds Param.name (Param.rename c.rename)
      (fun _ => rfl) env params blk))) fun ps qs bound => .bind (op _ _ bound) ?_
    rintro ⟨returns, _⟩ ⟨_, _⟩ ⟨rfl, _⟩
    exact .pure ⟨rfl, trivial⟩
  · rintro ⟨block, _⟩ ⟨_, _⟩ ⟨rfl, _⟩
    exact .next (.emit (.create _ _ _ _)) fun res => .next (.emit (.except _)) fun _ => .pure rfl

end Bodies

theorem tieShapes_alike (sizes vs : List Value) :
    Emit.Alike c Eq (tieShapes sizes vs) (tieShapes sizes vs) := by
  unfold tieShapes
  split
  · exact .pure rfl
  · exact mapM_alike _ fun _ _ => .create1 _ _ _

theorem insertRows_alike (ivs rows outputs : List Value) (rowSize : Int ⊕ Value) :
    Emit.Alike c Eq (insertRows ivs rows outputs rowSize) (insertRows ivs rows outputs rowSize) :=
  .block _ fun _ => .next (mapM_alike _ fun _ _ => .create _ _ _ _) fun _ => .pure rfl

def ScanParts.rename (ρ : VName → VName) (s : ScanParts) : ScanParts :=
  { s with
    scanDim := s.scanDim.rename ρ
    params := s.params.map (Param.rename ρ)
    postParams := s.postParams.map (Param.rename ρ)
    result := s.result.map (SubExp.rename ρ) }

section Scans

variable {T : List FuncSig × List FuncOp → List FuncSig × List FuncOp → Prop}
  {cfg cfg' : Config} (builds : c.Builds cfg cfg')
  {lowerStms lowerStms' : List VName → Ctx → Lower Ctx}
  (body : ∀ skip ctx ctx', c.Renames ctx ctx' →
    Lower.Alike c T c.Renames (lowerStms skip ctx) (lowerStms' (skip.map c.rename) ctx'))
  {lowerOp lowerOp' lowerPost lowerPost' : Ctx → Lower (List Value × Ctx)}
  (op : ∀ ctx ctx', c.Renames ctx ctx' →
    Lower.Alike c T (WithSame c.Renames) (lowerOp ctx) (lowerOp' ctx'))
  (post : ∀ ctx ctx', c.Renames ctx ctx' →
    Lower.Alike c T (WithSame c.Renames) (lowerPost ctx) (lowerPost' ctx'))

include builds body op post

theorem lowerScanStep_alike (env : c.Renames ctx ctx') (s : ScanParts) (args : List Value) :
    Lower.Alike c T Eq (lowerScanStep cfg s lowerStms lowerOp lowerPost ctx args)
      (lowerScanStep cfg' (s.rename c.rename) lowerStms' lowerOp' lowerPost' ctx' args) := by
  unfold lowerScanStep
  simp only [ScanParts.rename, Dim.rename, List.length_map]
  refine .next (.emit (.except _)) fun scanIndex => .next (.emit (tieShapes_alike _ _)) fun rows => ?_
  refine .next (.emit (castUnlessEqual_alike _ _)) fun gtid => ?_
  refine .bind (body [] _ _ (env.insert s.scanDim.id gtid)) fun kernel kernel' inner => ?_
  refine .next (.emit (lowerSubExps_alike inner s.result)) fun results => ?_
  refine .bind (.emit (.lift (bindOperands_agrees builds inner _ _ _))) fun _ _ operands => ?_
  refine .bind (op _ _ operands) ?_
  rintro ⟨next, _⟩ ⟨_, _⟩ ⟨rfl, _⟩
  refine .next (.emit (.except _)) fun bound => ?_
  split
  · exact .lowerUb
  refine .bind (post _ _ (bindParams_renames inner s.postParams bound)) ?_
  rintro ⟨elements, _⟩ ⟨_, _⟩ ⟨rfl, _⟩
  refine .next (.emit (.except _)) fun elements => ?_
  exact .next (.emit (mapM_alike _ fun _ _ => .create1 _ _ _)) fun nextRows => .pure rfl

theorem lowerSegScan_alike (env : c.Renames ctx ctx') (lvl : SegLevel) (space : SegSpace)
    (result : List SubExp) (ret : List Ty) (params : List Param) (neutral shape : List SubExp)
    (postParams : List Param) :
    Lower.Alike c T Eq
      (lowerSegScan cfg lvl space result ret params neutral shape postParams lowerStms lowerOp
        lowerPost ctx)
      (lowerSegScan cfg' lvl (space.rename c.rename) (result.map (SubExp.rename c.rename))
        (ret.map (Ty.rename c.rename)) (params.map (Param.rename c.rename))
        (neutral.map (SubExp.rename c.rename)) (shape.map (SubExp.rename c.rename))
        (postParams.map (Param.rename c.rename)) lowerStms' lowerOp' lowerPost' ctx') := by
  unfold lowerSegScan
  refine .next (.emit (.except _)) fun _ => ?_
  simp only [ne_eq, List.map_eq_nil_iff]
  split
  · exact .lowerUndefined
  refine .bind (.emit (lowerSegSpace_alike env space)) ?_
  rintro dims _ rfl
  rw [List.getLast?_map]
  cases dims.getLast? with
  | none => exact .lowerUndefined
  | some scanDim =>
    simp only [Option.map_some, SegSpace.rename, segOpTypes_rename, spaceSizes_rename,
      ← List.map_dropLast, upperBounds_rename, List.length_map]
    refine .next (.emit (lowerSubExps_alike env neutral)) fun neutrals => ?_
    refine .next (.emit (.except _)) fun types => .next (.emit (spaceSizes_alike _)) fun sizes => ?_
    refine .next (.emit (tensorEmpties_alike _ _)) fun outputs => ?_
    refine .next (.emit (.createConstant _ _)) fun zero => ?_
    refine .next (.emit (.createConstant _ _)) fun one => ?_
    refine .next (.emit (castUnlessEqual_alike _ _)) fun bound => ?_
    refine .next (.emit (upperBounds_alike _)) fun bounds => ?_
    refine .bind (.lowerBlock (R := fun _ _ => True) _ fun args => ?_) ?_
    · have zips : ∀ ivs : List Value, (dims.dropLast.map (Dim.rename c.rename)).zip ivs =
          (dims.dropLast.zip ivs).map fun p => (p.1.rename c.rename, p.2) := by
        intro ivs
        rw [List.zip_map_left]
        rfl
      rw [zips]
      refine .bind (.emit (bindIndices_alike env _)) fun _ _ inner => ?_
      refine .next (.emit (tensorEmpties_alike _ _)) fun rows => ?_
      refine .bind (.lowerBlock (R := fun _ _ => True) _ fun args => ?_) ?_
      · exact .next (lowerScanStep_alike builds body op post inner _ args) fun carry =>
          .pure ⟨rfl, trivial⟩
      · rintro ⟨loop, _⟩ ⟨_, _⟩ ⟨rfl, _⟩
        refine .next (.emit (.create _ _ _ _)) fun results => .next (.emit (.except _)) fun _ => ?_
        refine .next (.emit (.except _)) fun ranked => .next (.emit (.except _)) fun rowDim => ?_
        refine .next (.emit (insertRows_alike _ _ _ _)) fun inserts => ?_
        exact .next (.emit (.create _ _ _ _)) fun _ => .pure ⟨rfl, trivial⟩
    · rintro ⟨block, _⟩ ⟨_, _⟩ ⟨rfl, _⟩
      exact .next (.emit (.create _ _ _ _)) fun results => .emit (tieShapes_alike _ _)

end Scans

end FutharkMlir
