import FutharkMlir.Invariance.Alike

namespace FutharkMlir

variable {c : Change} {cfg cfg' : Config} {ctx ctx' : Ctx}

section Checks

variable (builds : c.Builds cfg cfg')

include builds

theorem assertThat_agrees (b : Bool) :
    Agree c.Errors c.Stops Eq (assertThat cfg b) (assertThat cfg' b) := by
  rcases builds.asserts with same | ⟨lax, off⟩
  · rw [assertThat, assertThat, same]
    exact .same Change.Errors.refl _
  · cases held : cfg.asserts && !b with
    | true =>
      simp only [assertThat, held, if_true]
      exact .stopped ⟨lax, rfl⟩
    | false =>
      simp only [assertThat, held, off, Bool.false_and]
      exact .ok rfl

theorem zipEqual_agrees {α α' β : Type} (f : α → α') (xs : List α) (ys : List β) :
    Agree c.Errors c.Stops (fun ps qs => qs = ps.map fun p => (f p.1, p.2))
      (zipEqual cfg xs ys) (zipEqual cfg' (xs.map f) ys) := by
  have zips : (xs.map f).zip ys = (xs.zip ys).map fun p => (f p.1, p.2) := by
    rw [List.zip_map_left]
    rfl
  simp only [zipEqual, List.length_map]
  by_cases lengths : xs.length = ys.length
  · simp only [lengths, if_true]
    exact .ok zips
  simp only [lengths, if_false]
  cases on : cfg.asserts with
  | true =>
    simp only [if_true]
    rcases builds.asserts with same | ⟨lax, off⟩
    · simp only [same, on, if_true]
      exact .error (.refl _)
    · exact .stopped ⟨lax, rfl⟩
  | false =>
    have off : cfg'.asserts = false := by
      rcases builds.asserts with same | ⟨_, off⟩
      · rw [same, on]
      · exact off
    simp only [off, Bool.false_eq_true, if_false]
    split
    · exact .error (.refl _)
    · exact .ok zips

theorem zipEqual_same {α β : Type} (xs : List α) (ys : List β) :
    Agree c.Errors c.Stops Eq (zipEqual cfg xs ys) (zipEqual cfg' xs ys) := by
  have agree := zipEqual_agrees builds id xs ys
  rw [List.map_id] at agree
  exact agree.weaken fun ps qs same => by simp [same]

end Checks

section Values

theorem indexCast_alike (v : Value) (ty : MlirTy) :
    Emit.Alike c Eq (indexCast v ty) (indexCast v ty) := .create1 _ _ _

theorem tensorDim_alike (v : Value) (i : Nat) :
    Emit.Alike c Eq (tensorDim v i) (tensorDim v i) :=
  .next (.createConstant _ _) fun _ => .create1 _ _ _

theorem tensorEmpty_alike (ty : MlirTy) (sizes : List Value) :
    Emit.Alike c Eq (tensorEmpty ty sizes) (tensorEmpty ty sizes) := .create1 _ _ _

theorem mapM_alike {α β : Type} {f g : α → Emit β} (xs : List α)
    (h : ∀ x ∈ xs, Emit.Alike c Eq (f x) (g x)) : Emit.Alike c Eq (xs.mapM f) (xs.mapM g) := by
  have alike := Tracked.Alike.mapM_map (k := id) xs h
  rwa [List.map_id] at alike

theorem tensorEmpties_alike (tys : List MlirTy) (sizes : List Value) :
    Emit.Alike c Eq (tensorEmpties tys sizes) (tensorEmpties tys sizes) :=
  mapM_alike _ fun _ _ => tensorEmpty_alike _ _

theorem tensorExtract_alike (v : Value) (indices : List Value) :
    Emit.Alike c Eq (tensorExtract v indices) (tensorExtract v indices) := by
  unfold tensorExtract
  split
  · exact .create1 _ _ _
  · exact .ub

theorem castToType_alike (v : Value) (ty : MlirTy) :
    Emit.Alike c Eq (castToType v ty) (castToType v ty) := by
  unfold castToType
  split
  · exact .pure rfl
  split
  · exact .create1 _ _ _
  split
  · split
    · exact tensorExtract_alike _ _
    · exact .undefined
  · exact .undefined

theorem castAll_alike (pairs : List (Value × MlirTy)) :
    Emit.Alike c Eq (castAll pairs) (castAll pairs) :=
  mapM_alike _ fun _ _ => castToType_alike _ _

theorem elementwiseOp_alike (code : OpCode) (op0 op1 : Value) :
    Emit.Alike c Eq (elementwiseOp code op0 op1) (elementwiseOp code op0 op1) :=
  .next (tensorEmpty_alike _ _) fun _ => .create1 _ _ _

theorem lowerCmpOp_alike (cmpOp : CmpOp) (lhs rhs : Value) :
    Emit.Alike c Eq (lowerCmpOp cmpOp lhs rhs) (lowerCmpOp cmpOp lhs rhs) := by
  unfold lowerCmpOp
  split <;> first | exact .create1 _ _ _ | exact .undefined

theorem lowerConvOp_alike (convOp : ConvOp) (op0 : Value) :
    Emit.Alike c Eq (lowerConvOp convOp op0) (lowerConvOp convOp op0) := by
  unfold lowerConvOp
  split <;> first | exact .create1 _ _ _ | exact .undefined

theorem createIota_alike (n x s : Value) (elementTy : ElemTy) (dimTy : Int) :
    Emit.Alike c Eq (createIota n x s elementTy dimTy) (createIota n x s elementTy dimTy) := by
  unfold createIota
  refine .next (tensorEmpty_alike _ _) fun output => .next (.block _ fun _ => ?_) fun body =>
    .next (.create _ _ _ _) fun res => .except _
  refine .next (.create1 _ _ _) fun idx => .next (indexCast_alike _ _) fun i => ?_
  exact .next (.create1 _ _ _) fun offset => .next (.create1 _ _ _) fun result => .pure rfl

theorem dynamicDimSizes_alike (v : Value) (i : Nat) (dims : List Int) :
    Emit.Alike c Eq (dynamicDimSizes v i dims) (dynamicDimSizes v i dims) := by
  induction dims generalizing i with
  | nil => exact .pure rfl
  | cons d rest ih =>
    unfold dynamicDimSizes
    split
    · exact .next (tensorDim_alike _ _) fun size => .next (ih _) fun sizes => .pure rfl
    · exact ih _

theorem replicatedValue_alike (op : Value) :
    Emit.Alike c Eq (replicatedValue op) (replicatedValue op) := by
  unfold replicatedValue
  split
  · exact .next (dynamicDimSizes_alike _ _ _) fun sizes => .pure rfl
  · exact .next (.create1 _ _ _) fun t => .pure rfl

theorem createMath_alike (op : MathOp) (args : List Value) :
    Emit.Alike c Eq (createMath op args) (createMath op args) :=
  .next (.except _) fun _ => .next (.create1 _ _ _) fun _ => .pure rfl

theorem lowerIntrinsic_alike (fname : String) (args : List Value) :
    Emit.Alike c Eq (lowerIntrinsic fname args) (lowerIntrinsic fname args) := by
  unfold lowerIntrinsic
  split
  · split
    · exact .next (.create1 _ _ _) fun _ => .pure rfl
    · exact .undefined
  split
  · exact .throw (.refl _)
  split
  · split
    · exact createMath_alike _ _
    · exact .undefined
  · exact .throw (.refl _)

end Values

section Asserting

variable (builds : c.Builds cfg cfg')

include builds

theorem assertThat_alike (b : Bool) :
    Emit.Alike c Eq (liftM (assertThat cfg b)) (liftM (assertThat cfg' b)) :=
  .lift (assertThat_agrees builds b)

theorem scalarArithOp_alike (op : ArithOp) (op0 op1 : Value) :
    Emit.Alike c Eq (scalarArithOp cfg op op0 op1) (scalarArithOp cfg' op op0 op1) :=
  .next (assertThat_alike builds _) fun _ => .create1 _ _ _

theorem lowerBinOp_alike (binOp : BinOp) (op0 op1 : Value) :
    Emit.Alike c Eq (lowerBinOp cfg binOp op0 op1) (lowerBinOp cfg' binOp op0 op1) := by
  cases binOp with
  | add | mul =>
    simp only [lowerBinOp]
    split
    · exact elementwiseOp_alike _ _ _
    · exact .create1 _ _ _
  | sub | squot | sdivUp | fadd | fmul | fsub | fdiv | fmax =>
    exact scalarArithOp_alike builds _ _ _
  | fpow => exact .next (assertThat_alike builds _) fun _ => .create1 _ _ _
  | _ => exact .undefined

theorem lowerMatMul_alike (args : List Value) (retTypes : List MlirTy) :
    Emit.Alike c Eq (lowerMatMul cfg args retTypes) (lowerMatMul cfg' args retTypes) := by
  unfold lowerMatMul
  refine .next (assertThat_alike builds _) fun _ => .next (assertThat_alike builds _) fun _ => ?_
  refine .next (.except _) fun x => .next (.except _) fun y => ?_
  refine .next (tensorDim_alike _ _) fun m => .next (tensorDim_alike _ _) fun n => ?_
  refine .next (.except _) fun retTy => .next (.except _) fun ranked => ?_
  refine .next (.lift (zipEqual_same builds _ _)) fun sizes => ?_
  refine .next (.createConstant _ _) fun zero => .next (tensorEmpty_alike _ _) fun empty => ?_
  exact .next (.create1 _ _ _) fun z => .create _ _ _ _

theorem lowerDotGeneral_alike (args : List Value) (retTypes : List MlirTy) :
    Emit.Alike c Eq (lowerDotGeneral cfg args retTypes) (lowerDotGeneral cfg' args retTypes) := by
  unfold lowerDotGeneral
  refine .next (assertThat_alike builds _) fun _ => .next (assertThat_alike builds _) fun _ => ?_
  refine .next (.except _) fun _ => .next (.except _) fun _ => .next (.except _) fun _ =>
    .next (.except _) fun _ => .next (.except _) fun _ => .next (.except _) fun _ => ?_
  refine .next (.except _) fun _ => .next (.except _) fun _ => .next (.except _) fun _ =>
    .next (.except _) fun _ => .next (.except _) fun _ => .next (.except _) fun _ => ?_
  exact .next (.except _) fun shape => .create _ _ _ _

theorem lowerRaggedDot_alike (args : List Value) (retTypes : List MlirTy) :
    Emit.Alike c Eq (lowerRaggedDot cfg args retTypes) (lowerRaggedDot cfg' args retTypes) := by
  unfold lowerRaggedDot
  refine .next (assertThat_alike builds _) fun _ => .next (assertThat_alike builds _) fun _ => ?_
  refine .next (.except _) fun _ => .next (.except _) fun _ => .next (.except _) fun _ => ?_
  refine .next (.except _) fun _ => .next (.except _) fun _ => .next (.except _) fun _ =>
    .next (.except _) fun _ => .next (.except _) fun _ => .next (.except _) fun _ => ?_
  refine .next (.except _) fun _ => .next (.except _) fun _ => .next (.except _) fun _ =>
    .next (.except _) fun _ => .next (.except _) fun _ => .next (.except _) fun _ => ?_
  refine .next (.except _) fun lhs => .next (.except _) fun rhs => ?_
  dsimp only
  split
  · exact .throw (.refl _)
  refine .next (.except _) fun group => ?_
  cases group.1.getLast? with
  | some g => exact .next (.pure rfl) fun g => .next (.except _) fun shape => .create _ _ _ _
  | none => exact .next .ub fun g => .next (.except _) fun shape => .create _ _ _ _

theorem lowerArgSort_alike (args : List Value) (retTypes : List MlirTy) :
    Emit.Alike c Eq (lowerArgSort cfg args retTypes) (lowerArgSort cfg' args retTypes) := by
  unfold lowerArgSort
  refine .next (assertThat_alike builds _) fun _ => .next (assertThat_alike builds _) fun _ => ?_
  refine .next (.except _) fun inputs => .next (.except _) fun _ => .next (.except _) fun _ =>
    .next (.except _) fun ranked => ?_
  dsimp only
  split
  · split
    · exact .throw (.refl _)
    refine .next (tensorDim_alike _ _) fun n => .next (.createConstant _ _) fun zero => ?_
    refine .next (.createConstant _ _) fun one => .next (createIota_alike _ _ _ _ _) fun indices => ?_
    refine .next (.block _ fun block => ?_) fun body => .next (.create _ _ _ _) fun op =>
      .next (.except _) fun result => .pure rfl
    refine .next (.except _) fun x => .next (.except _) fun y => ?_
    exact .next (.create1 _ _ _) fun lt => .pure rfl
  · exact .undefined

theorem lowerScatter_alike (args : List Value) (retTypes : List MlirTy) :
    Emit.Alike c Eq (lowerScatter cfg args retTypes) (lowerScatter cfg' args retTypes) := by
  unfold lowerScatter
  refine .next (assertThat_alike builds _) fun _ => .next (assertThat_alike builds _) fun _ => ?_
  refine .next (.except _) fun dest => .next (.except _) fun indices => .next (.except _) fun vs =>
    .next (.except _) fun ranked => ?_
  refine .next (.block _ fun blk => ?_) fun body => .create _ _ _ _
  exact .next (.except _) fun update => .pure rfl

theorem lowerBlackBox_alike (b : BlackBox) (args : List Value) (retTypes : List MlirTy) :
    Emit.Alike c Eq (lowerBlackBox cfg b args retTypes) (lowerBlackBox cfg' b args retTypes) := by
  cases b with
  | matMul => exact lowerMatMul_alike builds args retTypes
  | dotGeneral => exact lowerDotGeneral_alike builds args retTypes
  | raggedDot => exact lowerRaggedDot_alike builds args retTypes
  | argSort => exact lowerArgSort_alike builds args retTypes
  | scatter => exact lowerScatter_alike builds args retTypes

end Asserting

section Names

theorem lowerSubExp_alike (env : c.Renames ctx ctx') (se : SubExp) :
    Emit.Alike c Eq (lowerSubExp ctx se) (lowerSubExp ctx' (se.rename c.rename)) := by
  cases se with
  | const v => exact .next (.except _) fun attr => .createConstant _ _
  | var x => exact .lookup env x

theorem lowerSubExps_alike (env : c.Renames ctx ctx') (ses : List SubExp) :
    Emit.Alike c Eq (lowerSubExps ctx ses) (lowerSubExps ctx' (ses.map (SubExp.rename c.rename))) :=
  .mapM_map _ fun _ _ => lowerSubExp_alike env _

theorem lookups_alike (env : c.Renames ctx ctx') (xs : List VName) :
    Emit.Alike c Eq (lookups ctx xs) (lookups ctx' (xs.map c.rename)) :=
  .mapM_map _ fun _ _ => .lookup env _

theorem constantPrefix_rename {ρ : VName → VName} (values : List SubExp) :
    constantPrefix (values.map (SubExp.rename ρ)) = constantPrefix values := by
  induction values with
  | nil => rfl
  | cons v rest ih =>
    cases v with
    | const v => simp only [List.map_cons, SubExp.rename, constantPrefix, ih]
    | var x => rfl

theorem lowerArrayLit_alike (env : c.Renames ctx ctx') (values : List SubExp) (t : Ty) :
    Emit.Alike c Eq (lowerArrayLit values t ctx)
      (lowerArrayLit (values.map (SubExp.rename c.rename)) (t.rename c.rename) ctx') := by
  unfold lowerArrayLit
  rw [lowerTy_rename, constantPrefix_rename]
  refine .next (.except _) fun tensorTy => .next (.except _) fun attrs => ?_
  dsimp only
  split
  · exact .next (.except _) fun ranked => .createConstant _ _
  · exact .next (lowerSubExps_alike env _) fun vs => .create1 _ _ _

theorem toIndex_alike (env : c.Renames ctx ctx') (se : SubExp) :
    Emit.Alike c Eq (toIndex ctx se) (toIndex ctx' (se.rename c.rename)) := by
  cases se with
  | const v => exact .next (.except _) fun n => .pure rfl
  | var x => exact .next (.lookup env x) fun v => .next (indexCast_alike _ _) fun i => .pure rfl

theorem lowerSliceDim_alike (env : c.Renames ctx ctx') (d : DimIndex) :
    Emit.Alike c Eq (lowerSliceDim ctx d) (lowerSliceDim ctx' (d.rename c.rename)) := by
  cases d with
  | fix i => exact .next (toIndex_alike env i) fun offset => .pure rfl
  | slice start length stride =>
    simp only [lowerSliceDim, DimIndex.rename, toShapeDim_rename]
    have steps : constantStride (stride.rename c.rename) = constantStride stride := by
      cases stride <;> rfl
    rw [steps]
    refine .next (toIndex_alike env start) fun offset => .next (toIndex_alike env length) fun size => ?_
    exact .next (.except _) fun n => .next (.except _) fun extent => .pure rfl

theorem lowerFixed_alike (env : c.Renames ctx ctx') (d : DimIndex) :
    Emit.Alike c Eq (lowerFixed ctx d) (lowerFixed ctx' (d.rename c.rename)) := by
  cases d with
  | fix i => exact .next (lowerSubExp_alike env i) fun v => indexCast_alike _ _
  | slice start length stride => exact .ub

theorem any_isSlice_rename {ρ : VName → VName} (dims : List DimIndex) :
    (dims.map (DimIndex.rename ρ)).any DimIndex.isSlice = dims.any DimIndex.isSlice := by
  rw [List.any_map]
  congr 1
  funext d
  cases d <;> rfl

theorem lowerIndex_alike (env : c.Renames ctx ctx') (arr : VName) (dims : List DimIndex) :
    Emit.Alike c Eq (lowerIndex arr dims ctx)
      (lowerIndex (c.rename arr) (dims.map (DimIndex.rename c.rename)) ctx') := by
  unfold lowerIndex
  rw [any_isSlice_rename]
  refine .next (.lookup env arr) fun tensor => ?_
  split
  · exact .next (.mapM_map _ fun _ _ => lowerFixed_alike env _) fun indices =>
      tensorExtract_alike _ _
  · exact .next (.mapM_map _ fun _ _ => lowerSliceDim_alike env _) fun slices =>
      .next (.except _) fun ranked => .create1 _ _ _

theorem lowerConcat_alike (env : c.Renames ctx ctx') (dim : Int) (arrs : List VName) :
    Emit.Alike c Eq (lowerConcat dim arrs ctx) (lowerConcat dim (arrs.map c.rename) ctx') := by
  unfold lowerConcat
  refine .next (lookups_alike env arrs) fun operands => .next (.except _) fun tys => ?_
  exact .next (.except _) fun shape => .next (.except _) fun first => .create1 _ _ _

theorem lowerRearrange_alike (env : c.Renames ctx ctx') (arr : VName) (perm : List Nat) :
    Emit.Alike c Eq (lowerRearrange arr perm ctx) (lowerRearrange (c.rename arr) perm ctx') := by
  unfold lowerRearrange
  refine .next (.lookup env arr) fun op => .next (.except _) fun ranked => ?_
  dsimp only
  split
  · exact .undefined
  · exact .next (.except _) fun dims => .next (tensorEmpty_alike _ _) fun _ => .create1 _ _ _

theorem dynamicShapeSizes_alike (env : c.Renames ctx ctx') (pairs : List (SubExp × Int)) :
    Emit.Alike c Eq (dynamicShapeSizes ctx pairs)
      (dynamicShapeSizes ctx' (pairs.map fun p => (p.1.rename c.rename, p.2))) := by
  induction pairs with
  | nil => exact .pure rfl
  | cons p rest ih =>
    rw [List.map_cons, dynamicShapeSizes, dynamicShapeSizes]
    split
    · refine .next (lowerSubExp_alike env _) fun v => .next (indexCast_alike _ _) fun size => ?_
      exact .next ih fun sizes => .pure rfl
    · exact ih

theorem lowerIota_alike (env : c.Renames ctx ctx') (n x s : SubExp) (t : IntType) :
    Emit.Alike c Eq (lowerIota n x s t ctx)
      (lowerIota (n.rename c.rename) (x.rename c.rename) (s.rename c.rename) t ctx') := by
  unfold lowerIota
  rw [toShapeDim_rename]
  refine .next (lowerSubExp_alike env n) fun n' => .next (indexCast_alike _ _) fun count => ?_
  refine .next (lowerSubExp_alike env x) fun x' => .next (lowerSubExp_alike env s) fun s' => ?_
  exact .next (.except _) fun dimTy => createIota_alike _ _ _ _ _

section Shapes

variable (builds : c.Builds cfg cfg') (env : c.Renames ctx ctx')

include builds env

theorem lowerReshape_alike (op0 : SubExp) (remainder : List SubExp) :
    Emit.Alike c Eq (lowerReshape cfg op0 remainder ctx)
      (lowerReshape cfg' (op0.rename c.rename) (remainder.map (SubExp.rename c.rename)) ctx') := by
  unfold lowerReshape
  rw [toShapeType_rename, builds.reshapes]
  refine .next (lowerSubExp_alike env op0) fun src => .next (.except _) fun ranked => ?_
  refine .next (.except _) fun resultShape => ?_
  split
  · exact .pure rfl
  split
  · exact .undefined
  split
  · exact .create1 _ _ _
  · exact .create1 _ _ _

theorem lowerReplicate_alike (dims : List SubExp) (val : SubExp) :
    Emit.Alike c Eq (lowerReplicate cfg dims val ctx)
      (lowerReplicate cfg' (dims.map (SubExp.rename c.rename)) (val.rename c.rename) ctx') := by
  unfold lowerReplicate
  rw [toShapeType_rename]
  refine .next (lowerSubExp_alike env val) fun op => ?_
  simp only [List.map_eq_nil_iff]
  split
  · exact .pure rfl
  refine .next (.except _) fun shape => ?_
  refine .bind (.lift (zipEqual_agrees builds _ _ _)) ?_
  rintro pairs _ rfl
  refine .next (dynamicShapeSizes_alike env pairs) fun outer => ?_
  refine .next (replicatedValue_alike op) fun value => .next (tensorEmpty_alike _ _) fun _ => ?_
  exact .create1 _ _ _

theorem lowerScratch_alike (type : PrimType) (dims : List SubExp) :
    Emit.Alike c Eq (lowerScratch cfg type dims ctx)
      (lowerScratch cfg' type (dims.map (SubExp.rename c.rename)) ctx') := by
  unfold lowerScratch
  rw [toShapeType_rename]
  refine .next (.except _) fun baseTy => .next (.except _) fun shape => ?_
  refine .bind (.lift (zipEqual_agrees builds _ _ _)) ?_
  rintro pairs _ rfl
  exact .next (dynamicShapeSizes_alike env pairs) fun sizes => tensorEmpty_alike _ _

theorem lowerBasicOp_alike (op : BasicOp) :
    Emit.Alike c Eq (lowerBasicOp cfg op ctx) (lowerBasicOp cfg' (op.rename c.rename) ctx') := by
  cases op with
  | subExp se => exact lowerSubExp_alike env se
  | arrayLit values t => exact lowerArrayLit_alike env values t
  | binOp op op0 op1 =>
    exact .next (lowerSubExp_alike env op0) fun _ => .next (lowerSubExp_alike env op1) fun _ =>
      lowerBinOp_alike builds _ _ _
  | cmpOp op op0 op1 =>
    exact .next (lowerSubExp_alike env op0) fun _ => .next (lowerSubExp_alike env op1) fun _ =>
      lowerCmpOp_alike _ _ _
  | convOp op op0 => exact .next (lowerSubExp_alike env op0) fun _ => lowerConvOp_alike _ _
  | index arr dims => exact lowerIndex_alike env arr dims
  | concat dim arrs total => exact lowerConcat_alike env dim arrs
  | iota n x s t => exact lowerIota_alike env n x s t
  | replicate shape val => exact lowerReplicate_alike builds env shape val
  | scratch type dims => exact lowerScratch_alike builds env type dims
  | reshape op0 dimBegin dimEnd reshapedDim remainder =>
    exact lowerReshape_alike builds env op0 remainder
  | rearrange arr perm => exact lowerRearrange_alike env arr perm
  | opaqueOp | arrayVal | unOp | flatIndex | update | assert | flatUpdate | manifest =>
    exact .undefined

end Shapes

end Names

end FutharkMlir
