import FutharkMlir.Compiler.Function
import FutharkMlir.Lib.Zip
import FutharkMlir.Simulation.Runs

namespace FutharkMlir

variable {F : Type}

section Order

variable {M : Machine F} {t : Tensor (Scalar F)} {order : List (List Nat × Int)}

/-- Every update is processed, each once, at the index it has. -/
theorem scatterOrder_updates (h : scatterOrder M t = some order) :
    (order.map Prod.fst).Perm (points t.shape) ∧ ∀ u ∈ order, (t.get u.1).toInt = some u.2 := by
  rw [scatterOrder, List.mapM_eq_some] at h
  have each : List.Forall₂ (fun p u => u.1 = p ∧ (t.get p).toInt = some u.2)
      (M.schedule (points t.shape)) order := by
    refine h.imp fun p u hu => ?_
    obtain ⟨i, hi, rfl⟩ := Option.map_eq_some_iff.mp hu
    exact ⟨rfl, hi⟩
  have inOrder : M.schedule (points t.shape) = order.map Prod.fst := by
    rw [← List.forall₂_eq_eq_eq, List.forall₂_map_right_iff]
    exact each.imp fun _ _ hu => hu.1.symm
  refine ⟨inOrder ▸ M.schedule_perm _, fun u hu => ?_⟩
  obtain ⟨k, lt, rfl⟩ := List.getElem_of_mem hu
  obtain ⟨p, hp, eq, index⟩ := List.forall₂_getElem? each.flip (List.getElem?_eq_getElem lt)
  rwa [eq]

/-- The indices that are processed lie in a range just where those of all updates do. -/
theorem scatterOrder_inside (h : scatterOrder M t = some order) {k : Nat} :
    (∀ u ∈ order, 0 ≤ u.2 ∧ u.2 < k) ↔
      ∀ p, InBounds t.shape p → ∃ i, (t.get p).toInt = some i ∧ 0 ≤ i ∧ i < k := by
  obtain ⟨perm, index⟩ := scatterOrder_updates h
  constructor
  · intro inside p hp
    obtain ⟨u, hu, rfl⟩ := List.mem_map.mp (perm.mem_iff.mpr (mem_points.mpr hp))
    exact ⟨u.2, index u hu, inside u hu⟩
  · intro inside u hu
    have point := perm.mem_iff.mp (List.mem_map_of_mem hu)
    obtain ⟨i, hi, range⟩ := inside u.1 (mem_points.mp point)
    cases (index u hu).symm.trans hi
    exact range

end Order

section Undefined

variable {M : Machine F} {body : Region F} {point : List Nat} {updates t : Tensor (Scalar F)}

theorem scatterElement_shape {x : Scalar F} {q : List Nat} {t' : Tensor (Scalar F)}
    (h : scatterElement body point x t q = some t') : t'.shape = t.shape := by
  unfold scatterElement at h
  obtain ⟨⟨yield, _⟩, _, h⟩ := Option.bind_eq_some_iff.mp h
  dsimp only at h
  split at h
  · cases h
    rfl
  · cases h

theorem scatterStep_shape {u : List Nat × Int} {t' : Tensor (Scalar F)}
    (h : scatterStep body point updates t u = some t') : t'.shape = t.shape := by
  unfold scatterStep at h
  split at h
  · have keeps : ∀ (qs : List (List Nat)) (s : Tensor (Scalar F)), s.shape = t.shape →
        qs.foldlM (fun t q => scatterElement body point (updates.get (u.1 ++ q)) t
          (u.2.toNat :: q)) s = some t' → t'.shape = t.shape := by
      intro qs
      induction qs with
      | nil =>
        intro s same fold
        cases fold
        exact same
      | cons q qs ih =>
        intro s same fold
        obtain ⟨s', first, rest⟩ := Option.bind_eq_some_iff.mp fold
        exact ih s' ((scatterElement_shape first).trans same) rest
    exact keeps _ t rfl h
  · cases h

/-- One update outside of the tensor, wherever it comes in the order. -/
theorem scatterSteps_outside {order : List (List Nat × Int)} {u : List Nat × Int}
    (member : u ∈ order) (outside : ¬ (0 ≤ u.2 ∧ u.2 < t.shape.headD 0)) :
    order.foldlM (scatterStep body point updates) t = none := by
  induction order generalizing t with
  | nil => cases member
  | cons w order ih =>
    rw [List.foldlM_cons, Option.bind_eq_bind]
    cases step : scatterStep body point updates t w with
    | none => rfl
    | some t' =>
      rcases List.mem_cons.mp member with rfl | later
      · rw [scatterStep, if_neg outside] at step
        cases step
      · exact ih later (by rwa [scatterStep_shape step])

theorem runScatter_outside {indices original : Tensor (Scalar F)} {x : MVal F} {p : List Nat}
    {i : Int} (inside : InBounds indices.shape p) (index : (indices.get p).toInt = some i)
    (outside : ¬ (0 ≤ i ∧ i < original.shape.headD 0)) :
    runScatter M body point [x, .tensor indices, .tensor original] = none := by
  cases x with
  | scalar s => rfl
  | tensor updates =>
    unfold runScatter
    dsimp only
    split_ifs
    · cases h : scatterOrder M indices with
      | none => rfl
      | some order =>
        obtain ⟨perm, each⟩ := scatterOrder_updates h
        obtain ⟨u, hu, rfl⟩ := List.mem_map.mp (perm.mem_iff.mpr (mem_points.mpr inside))
        cases (each u hu).symm.trans index
        simp only [Option.bind_eq_bind, Option.bind_some, scatterSteps_outside hu outside,
          Option.bind_none]
    · rfl

end Undefined

section Unchecked

/-- The scatter processes every update, at the index it has: it stays inside the destination
just where the indices do, and writes outside, which is undefined, where one does not. -/
structure Unchecked (W : World F) (point : List Nat) (E : Env F) (op : Op)
    (indices original : Tensor (Scalar F)) : Prop where
  each : ∀ order, scatterOrder W.machine indices = some order →
    (order.map Prod.fst).Perm (points indices.shape) ∧
      ∀ u ∈ order, (indices.get u.1).toInt = some u.2
  inside : ∀ order, scatterOrder W.machine indices = some order →
    ((∀ u ∈ order, 0 ≤ u.2 ∧ u.2 < original.shape.headD 0) ↔
      ∀ p, InBounds indices.shape p →
        ∃ i, (indices.get p).toInt = some i ∧ 0 ≤ i ∧ i < original.shape.headD 0)
  outside : ∀ p i, InBounds indices.shape p → (indices.get p).toInt = some i →
    ¬ (0 ≤ i ∧ i < original.shape.headD 0) → execOps W.machine W.call [op] point E = none

theorem scatter_unchecks {W : World F} {point : List Nat} {E : Env F}
    {values indices dest : Value} {results : List Value} {region : Block}
    {t original : Tensor (Scalar F)} (ht : E indices = some (.tensor t))
    (hd : E dest = some (.tensor original)) :
    Unchecked W point E (.mk (.scatter [0] false) [values, indices, dest] results [region]) t
      original := by
  refine ⟨fun _ h => scatterOrder_updates h, fun _ h => scatterOrder_inside h,
    fun p i inside index outside => ?_⟩
  cases hv : E values with
  | none => simp [execOps, execOp, hv]
  | some x =>
    simp [execOps, execOp, hv, ht, hd, evalOp, regionsOf, runScatter_outside inside index outside]

end Unchecked

section Emission

variable {cfg : Config} {prog : Prog} {lf : FunDef → Lower Callee} {ctx : Ctx} {b b' : Builder}
  {values indices dest : Value} {before : List Op}

/-- What is lowered to a scatter: a `SegHist` or an application of the black box. -/
inductive Scatters (prog : Prog) : Exp → Prop where
  | segHist {lvl : SegLevel} {space : SegSpace} {ret : List Ty} {body : Body}
      {ops : List HistOp} : Scatters prog (.hostOp (.segOp (.segHist lvl space ret body ops)))
  | blackBox {fname : String} {args : List SubExp} {retTypes : List Ty} {f : FunDef}
      (found : findFunction prog fname = some f)
      (box : maybeBlackBox f.attrs = .ok (some .scatter)) :
      Scatters prog (.apply fname args retTypes)

/-- The operations before the scatter, and its operands: the results of the kernel and the
destination of the operator, or the last three arguments. -/
inductive ScatterSource (cfg : Config) (prog : Prog) (lf : FunDef → Lower Callee) (ctx : Ctx)
    (b : Builder) (values indices dest : Value) (before : List Op) : Exp → Prop where
  | segHist {lvl : SegLevel} {space : SegSpace} {ret : List Ty} {body : Body} {x : VName}
      {lambda : Lambda} {mid : Builder}
      (run : (lowerSegOp cfg prog lf (.segMap lvl space ret body) ctx).run b =
        .ok ([indices, values], mid))
      (ops : mid.ip.ops = b.ip.ops ++ before) (bound : ctx x = some dest) :
      ScatterSource cfg prog lf ctx b values indices dest before
        (.hostOp (.segOp (.segHist lvl space ret body [.mk [x] lambda])))
  | blackBox {fname : String} {args : List SubExp} {retTypes : List Ty} {sizes : List Value}
      {mid : Insertion}
      (run : (lowerSubExps ctx args).run b.ip = .ok (sizes ++ [dest, indices, values], mid))
      (ops : mid.ops = b.ip.ops ++ before) :
      ScatterSource cfg prog lf ctx b values indices dest before (.apply fname args retTypes)

theorem lowerSegHist_run {lvl : SegLevel} {space : SegSpace} {stms : List Stm}
    {result : List SubExp} {ret : List Ty} {ops : List (List VName × List Param)}
    {lowerStms : List VName → Ctx → Lower Ctx} {lowerLambda : Ctx → Lower (List Value × Ctx)}
    {vs : List Value}
    (run : (lowerSegHist cfg lvl space stms result ret ops lowerStms lowerLambda ctx).run b =
      .ok (vs, b')) :
    ∃ before values indices dest results region x params mid, ops = [([x], params)] ∧
      b'.ip.ops = b.ip.ops ++ before ++
        [.mk (.scatter [0] false) [values, indices, dest] results [region]] ∧
      (lowerSegMap cfg lvl space stms result ret lowerStms ctx).run b =
        .ok ([indices, values], mid) ∧
      mid.ip.ops = b.ip.ops ++ before ∧ ctx x = some dest := by
  unfold lowerSegHist at run
  obtain ⟨_, b₁, level, run⟩ := Tracked.bind_ok.mp run
  obtain ⟨_, rfl⟩ := Lower.liftExcept_ok.mp level
  obtain ⟨inputs, mid, map, run⟩ := Tracked.bind_ok.mp run
  split at run
  · rename_i indices values names params _ _
    obtain ⟨dests, b₂, lookup, rest⟩ := Tracked.bind_ok.mp run
    obtain ⟨ip, looked, rfl⟩ := Lower.run_ofEmit lookup
    obtain ⟨bound, rfl⟩ := lookups_ok looked
    split at rest
    · rename_i dest
      obtain ⟨x, _, hx, none, rfl⟩ := List.forall₂_cons_right_iff.mp bound
      cases none
      obtain ⟨⟨indexShape, _⟩, b₃, ranked, rest⟩ := Tracked.bind_ok.mp rest
      obtain ⟨_, rfl⟩ := Lower.liftExcept_ok.mp ranked
      dsimp only at rest
      split at rest
      · cases rest
      obtain ⟨types, b₄, lowered, rest⟩ := Tracked.bind_ok.mp rest
      obtain ⟨_, rfl⟩ := Lower.liftExcept_ok.mp lowered
      obtain ⟨⟨region, _⟩, b₅, block, rest⟩ := Tracked.bind_ok.mp rest
      obtain ⟨op, b₆, create, rest⟩ := Tracked.bind_ok.mp rest
      obtain ⟨res, b₇, first, last⟩ := Tracked.bind_ok.mp rest
      obtain ⟨_, rfl⟩ := Lower.liftExcept_ok.mp first
      obtain ⟨_, rfl⟩ := Tracked.pure_ok.mp last
      cases create
      obtain ⟨new, ops, _⟩ := (Tracked.tracks _ map).ip.ops
      refine ⟨new, values, indices, dest, freshValues b₅.ip.func b₅.ip.next [dest.ty], region, x,
        params, mid, rfl, ?_, map, ops, hx⟩
      change b₅.ip.ops ++ _ = _
      rw [Lower.inBlock_ops block, ops]
    · cases rest
  · cases run

theorem lowerSegOp_scatters {lvl : SegLevel} {space : SegSpace} {ret : List Ty} {body : Body}
    {ops : List HistOp} {vs : List Value}
    (run : (lowerSegOp cfg prog lf (.segHist lvl space ret body ops) ctx).run b = .ok (vs, b')) :
    ∃ before values indices dest results region, b'.ip.ops = b.ip.ops ++ before ++
        [.mk (.scatter [0] false) [values, indices, dest] results [region]] ∧
      ScatterSource cfg prog lf ctx b values indices dest before
        (.hostOp (.segOp (.segHist lvl space ret body ops))) := by
  obtain ⟨stms, result⟩ := body
  unfold lowerSegOp at run
  split at run
  all_goals
    obtain ⟨before, values, indices, dest, results, region, x, params, mid, eq, ops, map, first,
      bound⟩ := lowerSegHist_run run
    cases eq
  refine ⟨before, values, indices, dest, results, region, ops, .segHist ?_ first bound⟩
  rwa [lowerSegOp]

theorem getArg_last {args : List Value} {x y z : Value} (hx : getArg args 3 0 = .ok x)
    (hy : getArg args 3 1 = .ok y) (hz : getArg args 3 2 = .ok z) :
    args = args.take (args.length - 3) ++ [x, y, z] := by
  unfold getArg at hx hy hz
  by_cases few : args.length < 3
  · rw [if_pos few] at hx
    cases hx
  · rw [if_neg few] at hx hy hz
    have last : args.drop (args.length - 3) = [x, y, z] := by
      refine List.ext_getElem? fun i => ?_
      rw [List.getElem?_drop]
      match i with
      | 0 => exact indexed_eq hx
      | 1 => exact indexed_eq hy
      | 2 => exact indexed_eq hz
      | i + 3 => simp; omega
    rw [← last, List.take_append_drop]

theorem lowerScatter_run {args : List Value} {retTys : List MlirTy} {vs : List Value}
    {ip ip' : Insertion} (run : (lowerScatter cfg args retTys).run ip = .ok (vs, ip')) :
    ∃ sizes values indices dest results region, args = sizes ++ [dest, indices, values] ∧
      ip'.ops = ip.ops ++
        [.mk (.scatter [0] false) [values, indices, dest] results [region]] := by
  unfold lowerScatter at run
  obtain ⟨_, ip₁, first, run⟩ := Tracked.bind_ok.mp run
  obtain ⟨_, rfl⟩ := Tracked.ofExcept_ok.mp first
  obtain ⟨_, ip₂, second, run⟩ := Tracked.bind_ok.mp run
  obtain ⟨_, rfl⟩ := Tracked.ofExcept_ok.mp second
  obtain ⟨dest, ip₃, destArg, run⟩ := Tracked.bind_ok.mp run
  obtain ⟨hdest, rfl⟩ := Tracked.ofExcept_ok.mp destArg
  obtain ⟨indices, ip₄, indicesArg, run⟩ := Tracked.bind_ok.mp run
  obtain ⟨hindices, rfl⟩ := Tracked.ofExcept_ok.mp indicesArg
  obtain ⟨values, ip₅, valuesArg, run⟩ := Tracked.bind_ok.mp run
  obtain ⟨hvalues, rfl⟩ := Tracked.ofExcept_ok.mp valuesArg
  obtain ⟨⟨_, elem⟩, ip₆, ranked, run⟩ := Tracked.bind_ok.mp run
  obtain ⟨_, rfl⟩ := Tracked.ofExcept_ok.mp ranked
  obtain ⟨region, ip₇, block, create⟩ := Tracked.bind_ok.mp run
  refine ⟨_, values, indices, dest, freshValues ip₇.func ip₇.next [dest.ty], region,
    getArg_last hdest hindices hvalues, ?_⟩
  cases create
  change ip₇.ops ++ _ = _
  rw [Emit.inBlock_ops block]

theorem lowerApply_scatters {fname : String} {args : List SubExp} {retTypes : List Ty}
    {f : FunDef} (found : findFunction prog fname = some f)
    (box : maybeBlackBox f.attrs = .ok (some .scatter)) {fuel : Nat} {vs : List Value}
    (run : (lowerApply cfg prog (lowerFunction cfg prog fuel) fname args retTypes ctx).run b =
      .ok (vs, b')) :
    ∃ before values indices dest results region after, b'.ip.ops = b.ip.ops ++ before ++
        .mk (.scatter [0] false) [values, indices, dest] results [region] :: after ∧
      ScatterSource cfg prog lf ctx b values indices dest before
        (.apply fname args retTypes) := by
  rw [lowerApply, found] at run
  obtain ⟨retTys, b₁, types, run⟩ := Tracked.bind_ok.mp run
  obtain ⟨_, rfl⟩ := Lower.liftExcept_ok.mp types
  obtain ⟨callee, b₂, lookup, run⟩ := Tracked.bind_ok.mp run
  obtain ⟨returns, b₃, call, run⟩ := Tracked.bind_ok.mp run
  obtain ⟨ip, emitted, rfl⟩ := Lower.run_ofEmit call
  obtain ⟨new, later, _⟩ := (Tracked.tracks _ run).ip.ops
  obtain ⟨rfl, rfl⟩ : callee = .blackBox .scatter ∧ b = b₂ := by
    cases fuel with
    | zero => cases lookup
    | succ fuel =>
      rw [lowerFunction, box] at lookup
      cases lookup
      exact ⟨rfl, rfl⟩
  obtain ⟨us, mid, lowered, emitted⟩ := Tracked.bind_ok.mp emitted
  obtain ⟨sizes, values, indices, dest, results, region, rfl, ops⟩ := lowerScatter_run emitted
  obtain ⟨before, first, _⟩ := (Tracked.tracks _ lowered).ops
  refine ⟨before, values, indices, dest, results, region, new, ?_, .blackBox lowered first⟩
  change b'.ip.ops = ip.ops ++ new at later
  rw [later, ops, first, List.append_assoc, List.singleton_append]

/-- No index is checked: the scatter that is emitted processes every element of the run-time
index tensor, so it stays inside the destination just where those elements do. -/
theorem scatter_unchecked {exp : Exp} (scatters : Scatters prog exp) {fuel : Nat}
    {vs : List Value} {ctx' : Ctx} (run : (lowerExp cfg prog (lowerFunction cfg prog fuel) exp
      ctx).run b = .ok ((vs, ctx'), b')) :
    ∃ before values indices dest results region after, b'.ip.ops = b.ip.ops ++ before ++
        .mk (.scatter [0] false) [values, indices, dest] results [region] :: after ∧
      ScatterSource cfg prog (lowerFunction cfg prog fuel) ctx b values indices dest before exp ∧
      ∀ (W : World F) point E E' ws t original,
        execOps W.machine W.call before point E = some (E', ws) →
        E' indices = some (.tensor t) → E' dest = some (.tensor original) →
        Unchecked W point E'
          (.mk (.scatter [0] false) [values, indices, dest] results [region]) t original := by
  cases scatters with
  | segHist =>
    rw [lowerExp, lowerHostOp] at run
    obtain ⟨us, b₁, lowered, last⟩ := Tracked.bind_ok.mp run
    obtain ⟨_, rfl⟩ := Tracked.pure_ok.mp last
    obtain ⟨before, values, indices, dest, results, region, ops, source⟩ :=
      lowerSegOp_scatters lowered
    exact ⟨before, values, indices, dest, results, region, [], ops, source,
      fun W point E E' ws t original _ ht hd => scatter_unchecks ht hd⟩
  | blackBox found box =>
    rw [lowerExp] at run
    obtain ⟨us, b₁, lowered, last⟩ := Tracked.bind_ok.mp run
    obtain ⟨_, rfl⟩ := Tracked.pure_ok.mp last
    obtain ⟨before, values, indices, dest, results, region, after, ops, source⟩ :=
      lowerApply_scatters found box lowered
    exact ⟨before, values, indices, dest, results, region, after, ops, source,
      fun W point E E' ws t original _ ht hd => scatter_unchecks ht hd⟩

end Emission

section Examples

def vectorTy (n : Int) : Ty := .array (.int .int64) [.const (.createInt n 64)]

def scatterFun : FunDef :=
  { entry := false
    attrs := [.comp "blackbox" [.atom "scatter"]]
    name := "scatter"
    retType := [vectorTy 2]
    params := [⟨"dest", vectorTy 2⟩, ⟨"is", vectorTy 1⟩, ⟨"vs", vectorTy 1⟩]
    body := .mk [] [.var "dest"] }

def scatterProg : Prog := ⟨[], [scatterFun]⟩

def scatterCall : Exp := .apply "scatter" [.var "dest", .var "is", .var "vs"] [vectorTy 2]

def scatterArg (id : Nat) (n : Int) : Value := { func := "f", id, ty := .tensor [n] (.int 64) }

def scatterCtx : Ctx := Ctx.empty.insertAll
  [("dest", scatterArg 0 2), ("is", scatterArg 1 1), ("vs", scatterArg 2 1)]

def scatterStart : Builder := { ip := ⟨"f", 3, [], []⟩, functions := [], module := [] }

def scatterEnv (i : Int) : Env Unit :=
  ((Binding.empty.insert (scatterArg 0 2) (.tensor (countUp [2]))).insert (scatterArg 1 1)
    (.tensor ⟨[1], fun _ => .int 64 (BitVec.ofInt 64 i)⟩)).insert (scatterArg 2 1)
    (.tensor (countUp [1]))

theorem scatterCall_scatters : Scatters scatterProg scatterCall := .blackBox rfl rfl

theorem scatterCall_run : ∃ vs b' results region,
    (lowerExp releaseConfig scatterProg (lowerFunction releaseConfig scatterProg 1) scatterCall
      scatterCtx).run scatterStart = .ok ((vs, scatterCtx), b') ∧
    b'.ip.ops = [.mk (.scatter [0] false) [scatterArg 2 1, scatterArg 1 1, scatterArg 0 2]
      results [region]] := ⟨_, _, _, _, rfl, rfl⟩

theorem scatter_unchecked_call : ∃ vs b' op,
    (lowerExp releaseConfig scatterProg (lowerFunction releaseConfig scatterProg 1) scatterCall
      scatterCtx).run scatterStart = .ok ((vs, scatterCtx), b') ∧ b'.ip.ops = [op] ∧
    Unchecked ⟨unitMachine, fun _ _ => none⟩ [] (scatterEnv 1) op
      ⟨[1], fun _ => .int 64 (BitVec.ofInt 64 1)⟩ (countUp [2]) := by
  obtain ⟨vs, b', results', region', run, ops⟩ := scatterCall_run
  obtain ⟨before, values, indices, dest, results, region, after, ops', _, holds⟩ :=
    scatter_unchecked (F := Unit) scatterCall_scatters run
  obtain ⟨rfl, rfl⟩ : before = [] ∧ after = [] := by
    have length := congrArg List.length (ops.symm.trans ops')
    simp only [List.length_append, List.length_cons, List.length_nil, scatterStart] at length
    exact ⟨List.eq_nil_of_length_eq_zero (by omega), List.eq_nil_of_length_eq_zero (by omega)⟩
  cases ops.symm.trans ops'
  exact ⟨vs, b', _, run, ops, holds ⟨unitMachine, fun _ _ => none⟩ [] (scatterEnv 1)
    (scatterEnv 1) [] _ _ rfl rfl rfl⟩

/-- The scatter processes the index -1, where the destination has no element. -/
theorem scatter_negative : ¬ ∀ (cfg : Config) (prog : Prog) (fuel : Nat) (exp : Exp) (ctx ctx' : Ctx)
    (b b' : Builder) (vs : List Value), Scatters prog exp →
    (lowerExp cfg prog (lowerFunction cfg prog fuel) exp ctx).run b = .ok ((vs, ctx'), b') →
    ∀ before values indices dest results region after, b'.ip.ops = b.ip.ops ++ before ++
      .mk (.scatter [0] false) [values, indices, dest] results [region] :: after →
    ∀ (W : World Unit) point E E' ws t original order,
      execOps W.machine W.call before point E = some (E', ws) →
      E' indices = some (.tensor t) → E' dest = some (.tensor original) →
      scatterOrder W.machine t = some order →
      ∀ u ∈ order, 0 ≤ u.2 ∧ u.2 < original.shape.headD 0 := by
  intro claim
  obtain ⟨vs, b', results, region, run, ops⟩ := scatterCall_run
  have inside := claim _ _ _ _ _ _ _ _ _ scatterCall_scatters run [] _ _ _ results region [] ops
    ⟨unitMachine, fun _ _ => none⟩ [] (scatterEnv (-1)) _ _ _ _ [([0], -1)] rfl rfl rfl rfl _
    (List.mem_singleton.mpr rfl)
  exact absurd inside.1 (by decide)

end Examples

end FutharkMlir
