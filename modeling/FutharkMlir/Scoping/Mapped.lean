import FutharkMlir.Compiler.Function
import FutharkMlir.Kernels.Loads
import FutharkMlir.Lib.Zip
import FutharkMlir.Scoping.ScanCode

/-! How many values a reduction or a scan returns, and what becomes of the results of its
kernel that its operator does not combine. -/
namespace FutharkMlir

/-- One operator on `k` values, over a kernel that returns these and `m` more. -/
inductive SegOp.Maps (k m : Nat) : SegOp → Prop
  | segRed {lvl : SegLevel} {space : SegSpace} {ret lambdaRet : List Ty} {stms : List Stm}
      {result neutral shape : List SubExp} {params : List Param} {body : Body} :
      neutral.length = k → params.length = k + k → lambdaRet.length = k →
      body.result.length = k → result.length = k + m → ret.length = k + m →
      Maps k m (.segRed lvl space ret (.mk stms result) [.mk (.mk params lambdaRet body) neutral shape])
  | segScan {lvl : SegLevel} {space : SegSpace} {ret lambdaRet postRet : List Ty}
      {stms postStms : List Stm} {result neutral shape postResult : List SubExp}
      {params postParams : List Param} {body : Body} :
      neutral.length = k → params.length = k + k → lambdaRet.length = k →
      body.result.length = k → result.length = k + m → ret.length = k + m →
      postParams.length = k + m → postResult.length = k + m →
      Maps k m (.segScan lvl space ret (.mk stms result) [.mk (.mk params lambdaRet body) neutral shape]
        (.mk postParams postRet (.mk postStms postResult)))

def SegOp.isScan : SegOp → Bool
  | .segScan _ _ _ _ _ _ => true
  | _ => false

/-- A scan whose post-operator returns the mapped results of the kernel as they are: the
variables among them are rebound neither by its first `k` parameters nor by its statements. -/
def SegOp.HandsOn (k : Nat) : SegOp → Prop
  | .segScan _ _ _ (.mk _ result) _ (.mk postParams _ (.mk postStms postResult)) =>
    postResult.drop k = result.drop k ∧ ∀ x, .var x ∈ result.drop k →
      x ∉ paramNames (postParams.take k) ∧ x ∉ stmsLeaks postStms
  | _ => False

/-- A scan whose post-operator returns a name that neither its first `k` parameters, nor the
space, nor a statement, nor the environment binds. -/
def SegOp.ReturnsUnbound (k : Nat) (ctx : Ctx) : SegOp → Prop
  | .segScan _ space _ (.mk stms _) _ (.mk postParams _ (.mk postStms postResult)) =>
    ∃ x, .var x ∈ postResult ∧ x ∉ paramNames (postParams.take k) ∧ x ∉ space.dims.map Prod.fst ∧
      x ∉ stmsLeaks stms ∧ x ∉ stmsLeaks postStms ∧ ctx x = none
  | _ => False

theorem SegOp.HandsOn.isScan {k : Nat} {op : SegOp} (h : op.HandsOn k) : op.isScan = true := by
  cases op with
  | segScan => rfl
  | _ => exact False.elim h

section Lengths

variable {cfg : Config} {lvl : SegLevel} {space : SegSpace} {stms : List Stm}
  {result neutral shape : List SubExp} {ret lambdaRet : List Ty} {params postParams : List Param}
  {lowerStms : List VName → Ctx → Lower Ctx}
  {lowerLambda lowerOp lowerPost : Ctx → Lower (List Value × Ctx)} {ctx : Ctx}

theorem Emit.create_returns (code : OpCode) (operands : List Value) (tys : List MlirTy)
    (regions : List Block) :
    (Emit.create code operands tys regions).Returns fun vs => vs.length = tys.length :=
  fun _ _ _ run => (Emit.create_ok run).2

theorem tieShapes_returns (sizes vs : List Value) :
    (tieShapes sizes vs).Returns fun ws => ws.length = vs.length :=
  fun _ _ _ run => (tieShapes_ok run).length.symm

theorem lowerSegRed_returns :
    (lowerSegRed cfg lvl space stms result params lambdaRet neutral shape lowerStms lowerLambda
      ctx).Returns fun vs => vs.length = lambdaRet.length := by
  unfold lowerSegRed
  refine .bind (.any _) fun _ _ => ?_
  split
  · exact .throw _
  refine .bind (.any _) fun neutrals _ => .bind (.any _) fun iterSpace _ => ?_
  dsimp only
  split
  · exact .throw _
  refine .bind (.any _) fun reads _ => .bind (.any _) fun inputs _ => ?_
  refine .bind (Lower.liftExcept_returns _) fun tys types => ?_
  refine .bind (.any _) fun sizes _ => .bind (.any _) fun pairs _ => ?_
  refine .bind (.any _) fun outputs _ => .bind (.any _) fun body _ => ?_
  refine (Lower.lift_returns (Emit.create_returns _ _ tys _)).weaken fun vs length => ?_
  rw [length, segOpTypes_length types]

theorem lowerSegScan_returns :
    (lowerSegScan cfg lvl space result ret params neutral shape postParams lowerStms lowerOp lowerPost
      ctx).Returns fun vs => vs.length = ret.length := by
  unfold lowerSegScan
  refine .bind (.any _) fun _ _ => ?_
  split
  · exact .throw _
  refine .bind (.any _) fun iterSpace _ => ?_
  split
  · exact .throw _
  refine .bind (.any _) fun neutrals _ => .bind (Lower.liftExcept_returns _) fun tys types => ?_
  refine .bind (.any _) fun sizes _ => .bind (.any _) fun outputs _ => ?_
  refine .bind (.any _) fun zero _ => .bind (.any _) fun one _ => ?_
  refine .bind (.any _) fun bound _ => .bind (.any _) fun bounds _ => ?_
  refine .bind (.any _) fun body _ => ?_
  refine .bind (Lower.lift_returns (Emit.create_returns _ _ tys _)) fun results length => ?_
  refine (Lower.lift_returns (tieShapes_returns sizes results)).weaken fun vs same => ?_
  rw [same, length, segOpTypes_length types]

end Lengths

section Scan

variable {cfg : Config} {prog : Prog} {lf : FunDef → Lower Callee} {ctx : Ctx}

theorem lowerSubExps_unbound {x : VName} {ses : List SubExp} (member : .var x ∈ ses)
    (unbound : ctx x = none) : (lowerSubExps ctx ses).Returns fun _ => False := by
  unfold lowerSubExps
  induction ses with
  | nil => cases member
  | cons se ses ih =>
    rw [List.mapM_cons]
    rcases List.mem_cons.mp member with rfl | member
    · have stops : (lowerSubExp ctx (.var x)).Returns fun _ => False := by
        rw [lowerSubExp, Ctx.lookup, unbound]
        exact .throw _
      exact .bind stops fun _ h => h.elim
    · exact .bind (.any _) fun _ _ => .bind (ih member) fun _ h => h.elim

theorem lowerSubExp_same {c c' : Ctx} {se : SubExp} (same : ∀ x, se = .var x → c x = c' x) :
    lowerSubExp c se = lowerSubExp c' se := by
  cases se with
  | const v => rfl
  | var x => rw [lowerSubExp, lowerSubExp, Ctx.lookup, Ctx.lookup, same x rfl]

theorem lowerBody_length (stms : List Stm) (result : List SubExp) :
    (lowerBody cfg prog lf (.mk stms result) ctx).Returns fun p => p.1.length = result.length := by
  unfold lowerBody
  refine .bind (.any _) fun c _ => .bind (Lower.lift_returns lowerSubExps_length) fun vs length => ?_
  exact .pure length

theorem bindIndices_kept {x : VName} (ps : List (Dim × Value)) (unbound : ctx x = none)
    (outside : x ∉ ps.map fun p => p.1.id) : (bindIndices ps ctx).Returns fun c => c x = none := by
  intro ip c ip' run
  obtain ⟨gtids, _, rfl⟩ := bindIndices_ok run
  rw [Ctx.insertAll_of_not_mem, unbound]
  rw [List.map_fst_zip_take]
  exact fun member => outside (List.mem_of_mem_take member)

theorem bindParams_kept {x : VName} {params : List Param} {vs : List Value}
    (outside : x ∉ paramNames (params.take vs.length)) : bindParams ctx params vs x = ctx x := by
  apply Ctx.insertAll_of_not_mem
  rw [List.map_map]
  have names : List.map (Prod.fst ∘ fun p : Param × Value => (p.1.name, p.2)) (params.zip vs) =
      paramNames (params.take vs.length) := by
    rw [paramNames, ← List.map_fst_zip_take, List.map_map]
    rfl
  rwa [names]

/-- The post-operator is lowered with the accumulators bound and no mapped value. -/
theorem lowerScanStep_stuck {s : ScanParts} {stms postStms : List Stm} {postResult : List SubExp}
    {lowerOp : Ctx → Lower (List Value × Ctx)} {x : VName} (args : List Value)
    (handed : .var x ∈ postResult) (first : x ∉ paramNames (s.postParams.take s.scanValueCount))
    (gtid : x ≠ s.scanDim.id) (kernel : x ∉ stmsLeaks stms) (post : x ∉ stmsLeaks postStms)
    (unbound : ctx x = none) :
    (lowerScanStep cfg s (lowerKernelStms cfg prog lf stms) lowerOp
      (lowerBody cfg prog lf (.mk postStms postResult)) ctx args).Returns fun _ => False := by
  unfold lowerScanStep
  refine .bind (.any _) fun scanIndex _ => .bind (.any _) fun outputRows _ => ?_
  refine .bind (.any _) fun value _ => ?_
  rw [lowerKernelStms_nil]
  refine .bind (lowerStms_rebinds cfg prog lf stms _) fun kernelCtx rebinds => ?_
  have inKernel : kernelCtx x = none := by
    rw [rebinds.kept x kernel, Ctx.insert_of_ne _ _ gtid, unbound]
  refine .bind (.any _) fun kernelResults _ => .bind (.any _) fun lambdaCtx _ => ?_
  refine .bind (.any _) fun next _ => .bind (Lower.liftExcept_returns _) fun bound taken => ?_
  split
  · exact .throw _
  have inPost : bindParams kernelCtx s.postParams bound x = none := by
    rw [bindParams_kept (by rwa [firstValues_length taken]), inKernel]
  have stops : (lowerBody cfg prog lf (.mk postStms postResult)
      (bindParams kernelCtx s.postParams bound)).Returns fun _ => False := by
    unfold lowerBody
    refine .bind (lowerStms_rebinds cfg prog lf postStms _) fun c later => ?_
    exact .bind (Lower.lift_returns (lowerSubExps_unbound handed (by rw [later.kept x post, inPost])))
      fun _ h => h.elim
  exact .bind stops fun _ h => h.elim

/-- A scan whose post-operator returns an unbound name is not lowered. -/
theorem lowerSegScan_stuck {lvl : SegLevel} {space : SegSpace} {stms postStms : List Stm}
    {result neutral shape postResult : List SubExp} {ret : List Ty} {params postParams : List Param}
    {lowerOp : Ctx → Lower (List Value × Ctx)} {x : VName} (handed : .var x ∈ postResult)
    (first : x ∉ paramNames (postParams.take neutral.length)) (gtids : x ∉ space.dims.map Prod.fst)
    (kernel : x ∉ stmsLeaks stms) (post : x ∉ stmsLeaks postStms) (unbound : ctx x = none) :
    (lowerSegScan cfg lvl space result ret params neutral shape postParams
      (lowerKernelStms cfg prog lf stms) lowerOp (lowerBody cfg prog lf (.mk postStms postResult))
      ctx).Returns fun _ => False := by
  unfold lowerSegScan
  refine .bind (.any _) fun _ _ => ?_
  split
  · exact .throw _
  refine .bind (Lower.lift_returns (lowerSegDims_returns 0 space.dims)) fun iterSpace names => ?_
  split
  · exact .throw _
  rename_i scanDim last
  have ids : ∀ d ∈ iterSpace, x ≠ d.id := by
    rintro d member rfl
    exact gtids (names.ids ▸ List.mem_map_of_mem member)
  refine .bind (Lower.lift_returns (Tracked.Returns.mapM (R := fun _ _ => True) (fun _ => .any _) _))
    fun neutrals lowered => ?_
  refine .bind (.any _) fun tys _ => .bind (.any _) fun sizes _ => .bind (.any _) fun outputs _ => ?_
  refine .bind (.any _) fun zero _ => .bind (.any _) fun one _ => ?_
  refine .bind (.any _) fun bound _ => .bind (.any _) fun bounds _ => ?_
  refine .bind (Lower.inBlock_returns (Q := fun _ => False) fun regionArgs => ?_) fun _ h => h.elim
  have outer : x ∉ (iterSpace.dropLast.zip (regionArgs.take bounds.length)).map fun p => p.1.id := by
    rintro member
    obtain ⟨p, hp, rfl⟩ := List.mem_map.mp member
    exact ids p.1 (List.mem_of_mem_dropLast (List.of_mem_zip hp).1) rfl
  refine .bind (Lower.lift_returns (bindIndices_kept _ unbound outer)) fun c unbound => ?_
  refine .bind (.any _) fun rows _ => ?_
  refine .bind (Lower.inBlock_returns (Q := fun _ => False) fun args => ?_) fun _ h => h.elim
  refine .bind (lowerScanStep_stuck args handed ?_ ?_ kernel post unbound) fun _ h => h.elim
  · rwa [← lowered.length_eq]
  · exact ids scanDim (List.mem_of_getLast? last)

end Scan

section Statement

variable (cfg : Config) (prog : Prog) (lf : FunDef → Lower Callee) {ctx : Ctx} {k m : Nat}
  {op : SegOp} {b b' : Builder} {vs : List Value}

theorem lowerSegOp_length (maps : op.Maps k m) :
    (lowerSegOp cfg prog lf op ctx).Returns fun vs =>
      vs.length = if op.isScan then k + m else k := by
  cases maps with
  | segRed _ _ returned _ _ _ =>
    unfold lowerSegOp
    exact lowerSegRed_returns.weaken fun vs length => length.trans returned
  | segScan _ _ _ _ _ returned _ _ =>
    unfold lowerSegOp
    exact lowerSegScan_returns.weaken fun vs length => length.trans returned

theorem lowerSegOp_returnsUnbound (maps : op.Maps k m) (unbound : op.ReturnsUnbound k ctx) :
    (lowerSegOp cfg prog lf op ctx).Returns fun _ => False := by
  cases maps with
  | segRed => exact unbound.elim
  | segScan neutrals =>
    unfold lowerSegOp
    obtain ⟨x, result, first, gtids, kernel, post, unbound⟩ := unbound
    exact lowerSegScan_stuck result (neutrals ▸ first) gtids kernel post unbound

/-- Value `i` is the array of the kernel's result `i`: at every point the loops of the scan insert
that result into it, lowered where the kernel's statements end. -/
def SegOp.HoldsMapped (op : SegOp) (k : Nat) (ctx : Ctx) (ops : List Op) (vs : List Value)
    (i : Nat) : Prop :=
  match op with
  | .segScan _ space _ (.mk stms result) _ _ =>
    ∃ dims b₀ b₁ scanDim gtids gtid b₂ kernelCtx b₃ loop elements se element before after,
      (lowerSegSpace space ctx).run b₀ = .ok (dims, b₁) ∧ dims.getLast? = some scanDim ∧
      StoresRows k ops dims vs gtids loop ∧ InsertsElements k loop gtid elements ∧
      (lowerStms cfg prog lf stms ((ctx.insertAll ((dims.dropLast.map Dim.id).zip gtids)).insert
        scanDim.id gtid)).run b₂ = .ok (kernelCtx, b₃) ∧ b₃.ip.ops <+: loop.ops ∧
      result[i]? = some se ∧ elements[i]? = some element ∧
      (lowerSubExp kernelCtx se).run before = .ok (element, after) ∧ after.ops <+: loop.ops
  | _ => False

theorem lowerSegOp_holdsMapped (maps : op.Maps k m) (hands : op.HandsOn k)
    (run : (lowerSegOp cfg prog lf op ctx).run b = .ok (vs, b')) {i : Nat} (mapped : k ≤ i)
    (inside : i < k + m) : op.HoldsMapped cfg prog lf k ctx b'.ip.ops vs i := by
  cases maps with
  | segRed => exact hands.elim
  | @segScan _ _ _ _ _ _ postStms result _ _ postResult _ _ body neutrals _ _ opResult _ returned _
      postResults =>
    obtain ⟨opStms, opResults⟩ := body
    obtain ⟨same, kept⟩ := hands
    unfold lowerSegOp at run
    obtain ⟨dims, b₀, b₁, scanDim, _, gtids, kernelCtx, loop, elements, space', last, stores, code⟩ :=
      lowerSegScan_ok (fun c => (lowerBody_length opStms opResults).weaken fun _ length =>
        length.trans (opResult.trans neutrals.symm)) run
    obtain ⟨gtid, b₂, b₃, kernel, afterKernel, inserts⟩ := code.kernel
    obtain ⟨bound, outputs, c, b₄, b₅, front, post, afterPost, chosen⟩ := code.post
    rw [lowerKernelStms_nil] at kernel
    unfold lowerBody at post
    obtain ⟨_, _, postRun, post⟩ := Tracked.bind_ok.mp post
    obtain ⟨_, _, lowered, post⟩ := Tracked.bind_ok.mp post
    obtain ⟨eq, rfl⟩ := Tracked.pure_ok.mp post
    cases eq
    have later := lowerStms_rebinds cfg prog lf postStms _ _ _ _ postRun
    have postLt : i < postResult.length := by omega
    have dropped : ∀ ses : List SubExp, (ses.drop k)[i - k]? = ses[i]? := fun ses => by
      rw [List.getElem?_drop, Nat.add_sub_cancel' mapped]
    have at' : result[i]? = some postResult[i] := by
      rw [← dropped, ← same, dropped, List.getElem?_eq_getElem postLt]
    have member : postResult[i] ∈ result.drop k :=
      List.mem_of_getElem? (i := i - k) ((dropped result).trans at')
    obtain ⟨count, each⟩ := List.forall₂_iff_get.mp (Emit.mapM_ok (Lower.lift_ok lowered))
    have outLt : i < outputs.length := count ▸ postLt
    obtain ⟨before, after, run', afterResult⟩ := each i postLt outLt
    have inKernel : lowerSubExp c postResult[i] = lowerSubExp kernelCtx postResult[i] := by
      refine lowerSubExp_same fun x eq => ?_
      obtain ⟨first, stms'⟩ := kept x (eq ▸ member)
      rw [later.kept x stms', bindParams_kept]
      rwa [front, neutrals]
    simp only [List.get_eq_getElem, inKernel] at run'
    have element : elements[i]? = some outputs[i] := by
      rw [(firstValues_ok chosen).1, List.getElem?_take_of_lt (returned ▸ inside),
        List.getElem?_eq_getElem outLt]
    exact ⟨dims, b₀, b₁, scanDim, gtids, gtid, b₂, kernelCtx, b₃, loop, elements, postResult[i],
      outputs[i], before, after, space', last, neutrals ▸ stores, neutrals ▸ inserts, kernel,
      afterKernel, at', element, run', afterResult.trans afterPost⟩

/-- Lowering the statement binds every name of its pattern. -/
def BindsPattern (pat : List PatElem) (op : SegOp) (ctx : Ctx) (b : Builder) : Prop :=
  ∃ c b', (lowerStm cfg prog lf (.mk pat (.hostOp (.segOp op))) ctx).run b = .ok (c, b') ∧
    ∀ x ∈ pat.map PatElem.name, c x ≠ none

/-- The run has lost no result: it gives a value for every combined and every mapped one, these
are bound to the pattern, and the last `m` are the arrays of the mapped results. -/
structure KeepsMapped (op : SegOp) (k m : Nat) (ctx : Ctx) (pat : List PatElem) (b b' : Builder)
    (vs : List Value) : Prop where
  count : vs.length = k + m
  binds : BindsPattern cfg prog lf pat op ctx b
  arrays : ∀ i, k ≤ i → i < k + m → op.HoldsMapped cfg prog lf k ctx b'.ip.ops vs i

theorem lowerStm_segOp (pat : List PatElem)
    (run : (lowerSegOp cfg prog lf op ctx).run b = .ok (vs, b')) :
    ∃ b'', (lowerStm cfg prog lf (.mk pat (.hostOp (.segOp op))) ctx).run b =
      ((zipEqual cfg pat vs).map fun pairs =>
        (ctx.insertAll (pairs.map fun p => (p.1.name, p.2)), b'')).mapError Stop.thrown := by
  have inner : (lowerExp cfg prog lf (.hostOp (.segOp op)) ctx).run b = .ok ((vs, ctx), b') := by
    simp only [lowerExp, lowerHostOp, Tracked.run_bind, run, Tracked.run_pure]
  unfold lowerStm
  simp only [Tracked.run_bind, Lower.recording, inner, Lower.run_liftExcept]
  cases zipEqual cfg pat vs with
  | error e => exact ⟨b', rfl⟩
  | ok pairs => exact ⟨_, rfl⟩

theorem bindsPattern_iff {pat : List PatElem}
    (run : (lowerSegOp cfg prog lf op ctx).run b = .ok (vs, b')) (enough : vs.length ≤ pat.length) :
    BindsPattern cfg prog lf pat op ctx b ↔ vs.length = pat.length := by
  obtain ⟨b'', stm⟩ := lowerStm_segOp cfg prog lf pat run
  constructor
  · rintro ⟨c, b₁, bound, _⟩
    rw [stm] at bound
    by_contra differ
    have short : vs.length < pat.length := lt_of_le_of_ne enough differ
    rw [zipEqual, if_neg (Ne.symm differ), if_pos short] at bound
    split at bound <;> cases bound
  · intro same
    rw [zipEqual, if_pos same.symm] at stm
    refine ⟨_, b'', stm, ?_⟩
    have rebinds := Rebinds.insertAll ctx ((pat.zip vs).map fun p => (p.1.name, p.2))
    have names : ((pat.zip vs).map fun p => (p.1.name, p.2)).map Prod.fst = pat.map PatElem.name := by
      conv_rhs => rw [← List.map_fst_zip (Nat.le_of_eq same.symm), List.map_map]
      rw [List.map_map]
      rfl
    rw [names] at rebinds
    exact rebinds.bound

end Statement

section Examples

def sumAndNumbers : SegOp :=
  .segRed .thread ⟨"flat", [("i", .const (.createInt 4 64))]⟩
    [.prim (.int .int64), .prim (.int .int64)] (.mk [] [.var "i", .var "i"])
    [.mk (.mk [⟨"a", .prim (.int .int64)⟩, ⟨"x", .prim (.int .int64)⟩] [.prim (.int .int64)]
      (.mk [.mk [⟨"s", .prim (.int .int64)⟩]
        (.basicOp (.binOp (.add .int64 .wrap) (.var "a") (.var "x")))] [.var "s"]))
      [.const (.createInt 0 64)] []]

def sumPattern : List PatElem :=
  [⟨"sum", .prim (.int .int64)⟩, ⟨"ns", .array (.int .int64) [.const (.createInt 4 64)]⟩]

def sumsAndNumbers : SegOp :=
  .segScan .thread ⟨"flat", [("i", .const (.createInt 4 64))]⟩
    [.prim (.int .int64), .prim (.int .int64)] (.mk [] [.var "i", .var "i"])
    [.mk (.mk [⟨"a", .prim (.int .int64)⟩, ⟨"x", .prim (.int .int64)⟩] [.prim (.int .int64)]
      (.mk [.mk [⟨"s", .prim (.int .int64)⟩]
        (.basicOp (.binOp (.add .int64 .wrap) (.var "a") (.var "x")))] [.var "s"]))
      [.const (.createInt 0 64)] []]
    (.mk [⟨"p", .prim (.int .int64)⟩, ⟨"q", .prim (.int .int64)⟩]
      [.prim (.int .int64), .prim (.int .int64)] (.mk [] [.var "p", .var "i"]))

end Examples

end FutharkMlir
