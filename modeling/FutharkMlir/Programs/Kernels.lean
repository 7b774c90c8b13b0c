import FutharkMlir.Programs.Casts

namespace FutharkMlir

variable {F : Type}

section Passes

variable {W : World F} {point : List Nat} {E E₀ : Env F} {n m : Nat}

/-- Operations whose results are numbered from `n` on change no value there was before. -/
theorem execOps_numbered {ops : List Op} (within : ∀ op ∈ ops, ∀ v ∈ op.results, n ≤ v.id ∧ v.id < m)
    (below : E₀.Below n) (sub : E₀.Sub E) (bounded : E.Below m) {E' : Env F} {ws : List (Write F)}
    (exec : execOps W.machine W.call ops point E = some (E', ws)) : E₀.Sub E' ∧ E'.Below m := by
  induction ops generalizing E ws with
  | nil =>
    cases exec
    exact ⟨sub, bounded⟩
  | cons op ops ih =>
    obtain ⟨code, operands, results, regions⟩ := op
    rw [execOps] at exec
    obtain ⟨⟨E₁, ws₁⟩, first, exec⟩ := Option.bind_eq_some_iff.mp exec
    obtain ⟨⟨E₂, ws₂⟩, rest, exec⟩ := Option.bind_eq_some_iff.mp exec
    cases exec
    rw [execOp] at first
    obtain ⟨args, _, first⟩ := Option.bind_eq_some_iff.mp first
    obtain ⟨⟨vals, ws⟩, _, first⟩ := Option.bind_eq_some_iff.mp first
    obtain ⟨E₁', bound, first⟩ := Option.bind_eq_some_iff.mp first
    cases first
    have here := within _ List.mem_cons_self
    refine ih (fun op hop => within op (List.mem_cons_of_mem _ hop)) ?_ ?_ rest
    · intro v x hx
      have old : v ∉ results := fun member =>
        absurd (below v x hx) (Nat.not_lt.mpr (here v member).1)
      rw [Binding.bind_of_not_mem bound old]
      exact sub v x hx
    · exact bounded.bind bound (le_refl _) fun v hv => (here v hv).2

theorem Lower.Passes.runs {α : Type} {c : Lower α} {P : Env F → Op → Prop} {Q : Env F → α → Prop}
    (h : Lower.Passes W point E c P Q) : Lower.Runs W point E c Q := by
  intro b a b' run below
  obtain ⟨before, op, after, E₁, E', ops, exec, _, exec', holds⟩ := h b a b' run below
  have grown := (c.tracks run).ip
  obtain ⟨new, eq, within⟩ := grown.ops
  have same : new = before ++ op :: after := by
    rw [ops, List.append_assoc] at eq
    exact (List.append_cancel_left eq).symm
  subst same
  have whole : execOps W.machine W.call (before ++ op :: after) point E = some (E', []) := by
    rw [execOps_append, exec]
    simp [exec']
  obtain ⟨sub, bounded⟩ := execOps_numbered (fun op hop v hv => (within op hop v hv).2) below
    (.refl _) (below.mono grown.next) whole
  exact ⟨_, E', [], eq, whole, sub, bounded, rfl, holds⟩

end Passes

section Tabulate

variable {E : Env F} {extents : List Nat} {n : Nat} {K : List Nat → Option (List (FVal F))}
  {outs : List (FVal F)}

theorem scalars_prims_of {vs : List (FVal F)} (h : ∀ v ∈ vs, v.toPrim.isSome = true) :
    ∃ ps : List (PVal F), vs = ps.map .prim := by
  induction vs with
  | nil => exact ⟨[], rfl⟩
  | cons v vs ih =>
    obtain ⟨head, tail⟩ := List.forall_mem_cons.mp h
    obtain ⟨ps, rfl⟩ := ih tail
    cases v with
    | prim p => exact ⟨p :: ps, rfl⟩
    | array a => cases head

theorem isRow_iff {vs : Option (List (FVal F))} : isRow n vs = true ↔
    ∃ ps : List (PVal F), vs = some (ps.map .prim) ∧ ps.length = n := by
  cases vs with
  | none => simp [isRow]
  | some vs =>
    simp only [isRow, Bool.and_eq_true, beq_iff_eq, List.all_eq_true, Option.some.injEq]
    constructor
    · rintro ⟨rfl, prims⟩
      obtain ⟨ps, rfl⟩ := scalars_prims_of prims
      exact ⟨ps, rfl, (List.length_map _).symm⟩
    · rintro ⟨ps, rfl, rfl⟩
      refine ⟨List.length_map _, fun v hv => ?_⟩
      obtain ⟨p, _, rfl⟩ := List.mem_map.mp hv
      rfl

theorem tabulate_eq_some (h : tabulate extents n K = some outs) :
    (∀ p, InBounds extents p → ∃ ps : List (PVal F), K p = some (ps.map .prim) ∧ ps.length = n) ∧
    outs = (List.range n).map fun k =>
      .array ⟨extents, fun p => if InBounds extents p then entry (K p) k else .bool false⟩ := by
  unfold tabulate at h
  obtain ⟨rows, eq⟩ := Option.ite_none_right_eq_some.mp h
  cases eq
  refine ⟨fun p inside => ?_, rfl⟩
  exact isRow_iff.mp (List.all_eq_true.mp rows p (mem_points.mpr inside))

theorem Represents.congr {v : Value} {a b : Tensor (PVal F)} (h : Represents E v (.array a))
    (shape : a.shape = b.shape) (same : ∀ p, InBounds a.shape p → a.get p = b.get p) :
    Represents E v (.array b) := by
  obtain ⟨t, s, e, value, ty, fits, shape', elements⟩ := h
  refine ⟨t, s, e, value, ty, fits, shape'.trans shape, fun p inside => ?_⟩
  rw [← shape] at inside
  rw [← same p inside]
  exact elements p inside

/-- Results that hold the scalars at every point represent the arrays of these. -/
theorem tabulated_represents (h : tabulate extents n K = some outs) {vs : List Value}
    {ts : List PrimType} (length : vs.length = n)
    (results : ∀ k v, vs[k]? = some v → ∃ a, Represents E v (.array a) ∧
      IsResult (fun p => (K p).getD []) ts extents k a) :
    List.Forall₂ (Represents E) vs outs := by
  obtain ⟨_, rfl⟩ := tabulate_eq_some h
  rw [List.forall₂_iff_get]
  refine ⟨by simp [length], fun k lt lt' => ?_⟩
  obtain ⟨a, rep, shape, each⟩ := results k vs[k] (List.getElem?_eq_getElem lt)
  simp only [List.get_eq_getElem, List.getElem_map, List.getElem_range]
  refine rep.congr shape fun p inside => ?_
  have here := (each p (shape ▸ inside)).1
  dsimp only at here
  cases value : K p with
  | none => simp [value] at here
  | some ps =>
    rw [value, Option.getD_some] at here
    rw [shape] at inside
    simp only [inside, if_true, entry, value, Option.bind_some, here]

theorem inBounds_append {outer o : List Nat} {j : Nat} (inside : InBounds outer o) (lt : j < n) :
    InBounds (outer ++ [n]) (o ++ [j]) :=
  List.rel_append inside (.cons lt .nil)

theorem extents_split (h : extents.getLast? = some n) : extents = extents.dropLast ++ [n] := by
  rw [List.dropLast_append_getLast? n h]

end Tabulate

section SegOps

variable (cfg : Config) {prog : Prog} {W : World F} {point : List Nat} {E : Env F} {ctx : Ctx}
  {Γ : Types} {ρ : Store F} {call : String → List (FVal F) → Option (List (FVal F))}
  {space : SegSpace} {stms : List Stm} {result : List SubExp} {ts : List PrimType}

theorem checkKernel_some (h : checkKernel prog Γ space stms result = some ts) :
    typeKernel prog Γ space (.mk stms result) = some ts ∧
      FreshNames Γ (space.dims.map Prod.fst ++ stmsBinders stms) := by
  obtain ⟨ts', type, h⟩ := Option.bind_eq_some_iff.mp h
  obtain ⟨fresh, eq⟩ := Option.ite_none_right_eq_some.mp h
  cases eq
  exact ⟨type, fresh⟩

theorem isOperator_iff {params : List Param} {body : Body} {neutral : List SubExp} :
    isOperator prog Γ ts params body neutral = true ↔ params.map Param.ty = (ts ++ ts).map .prim ∧
      typeLambda prog Γ params body = some ts ∧ neutral.mapM (typeSubExp Γ) = some ts ∧
      FreshNames Γ (params.map Param.name ++ body.binders) := by
  rw [isOperator, decide_eq_true_eq]

theorem outer_load (h : loadsOuter Γ space stms = true) {read : AffineRead}
    (member : read ∈ space.affineReads stms) :
    ∃ elem shape, Γ read.array = some (.array elem shape) := by
  have known := List.all_eq_true.mp h read member
  split at known
  · exact ⟨_, _, ‹_›⟩
  · cases known

theorem fills_load {extents : List Nat} (h : fillsSpace ρ space stms extents = true)
    {read : AffineRead} (member : read ∈ space.affineReads stms) :
    ∃ a, ρ read.array = some (.array a) ∧ a.shape = read.indexMap.project extents := by
  have known := List.all_eq_true.mp h read member
  split at known
  · exact ⟨_, ‹_›, beq_iff_eq.mp known⟩
  · cases known

theorem segMap_denoted (calls : CallsAgree W prog call) (h : Exact E ctx Γ ρ) {lvl : SegLevel}
    {ret : List Ty} {tys : List MlirTy} {outs : List (FVal F)}
    (check : checkSegOp prog Γ (.segMap lvl space ret (.mk stms result)) = some tys)
    (eval : computeSegOp true W.machine.toFloatOps call (.segMap lvl space ret (.mk stms result)) ρ =
      some outs) :
    Lower.Runs W point E (lowerSegOp cfg prog calleeOf (.segMap lvl space ret (.mk stms result)) ctx)
      fun E' vs => Denoted E' vs outs tys := by
  rw [checkSegOp] at check
  obtain ⟨ts, kernel, check⟩ := Option.bind_eq_some_iff.mp check
  obtain ⟨⟨rfl, nonempty, outer⟩, types⟩ := Option.ite_none_right_eq_some.mp check
  rw [toOption_eq_some] at types
  obtain ⟨type, fresh⟩ := checkKernel_some kernel
  rw [computeSegOp] at eval
  obtain ⟨bounds, hspace, eval⟩ := Option.bind_eq_some_iff.mp eval
  obtain ⟨fills, eval⟩ := Option.ite_none_right_eq_some.mp eval
  rw [Bool.not_true, Bool.false_or] at fills
  rw [List.length_map] at eval
  have kernelAt : ∀ p, InBounds (bounds.map Prod.snd) p → evalKernel W.machine.toFloatOps call space
      bounds (.mk stms result) ρ p = some ((evalKernel W.machine.toFloatOps call space bounds
        (.mk stms result) ρ p).getD []) := by
    intro p inside
    obtain ⟨ps, eq, _⟩ := (tabulate_eq_some eval).1 p inside
    rw [eq, Option.getD_some]
  have fill : ReadsFill space bounds stms Γ ρ := by
    intro read member
    obtain ⟨elem, shape, array⟩ := outer_load outer member
    obtain ⟨a, stored, extents⟩ := fills_load fills member
    exact ⟨a, elem, shape, stored, array, extents⟩
  unfold lowerSegOp
  refine ((lowerSegMap_runs cfg calls type rfl nonempty hspace kernelAt h.stands fresh
    fill).returns (lowerSegMap_types types)).weaken fun E' ws vs _ hvs => ⟨hvs.1, ?_⟩
  obtain ⟨_, ⟨length, results⟩, same⟩ := hvs
  exact .of (tabulated_represents eval length results) same

theorem foldKernel_of (h : Exact E ctx Γ ρ) {params : List Param} {body : Body}
    {neutral : List SubExp} {bounds : List (IntType × Nat)} {outer : List Nat} {n : Nat}
    {neutrals : List (PVal F)} (kernel : checkKernel prog Γ space stms result = some ts)
    (operator : isOperator prog Γ ts params body neutral = true)
    (bounded : evalSpace W.machine.toFloatOps ρ space = some bounds)
    (extents : bounds.map Prod.snd = outer ++ [n])
    (values : neutral.mapM (evalPrim W.machine.toFloatOps ρ) = some neutrals) :
    FoldKernel prog W.machine.toFloatOps Γ ρ space stms result params body neutral ts bounds outer n
      neutrals := by
  obtain ⟨type, fresh⟩ := checkKernel_some kernel
  obtain ⟨paramTypes, lambdaType, types, lambdaFresh⟩ := isOperator_iff.mp operator
  exact ⟨type, bounded, extents, fresh, lambdaType, paramTypes, lambdaFresh, values,
    h.stands.evalPrims_types types values⟩

/-- Every dimension but the last is one of a result, and the last one of a load. -/
theorem filled_of {extents : List Nat} (nonempty : ts ≠ [])
    (fills : fillsSpace ρ space stms extents = true) (covers : coversLast space stms = true) :
    KernelShape.Filled ⟨space, stms, space.dims.length - 1, ts.length⟩ ρ extents := by
  constructor
  · intro read member a stored
    obtain ⟨a', stored', shape⟩ := fills_load fills member
    cases stored.symm.trans stored'
    exact shape
  · intro d lt
    change d < space.dims.length at lt
    by_cases last : d < space.dims.length - 1
    · exact .inl ⟨last, List.length_pos_of_ne_nil nonempty⟩
    · obtain rfl : d = space.dims.length - 1 := by omega
      obtain ⟨read, member, mentions⟩ := List.any_eq_true.mp covers
      exact .inr ⟨read, member, by simpa using mentions⟩

theorem segRed_denoted (calls : CallsAgree W prog call) (h : Exact E ctx Γ ρ) {lvl : SegLevel}
    {ret lambdaRet : List Ty} {params : List Param} {body : Body} {neutral shape : List SubExp}
    {tys : List MlirTy} {outs : List (FVal F)}
    (check : checkSegOp prog Γ (.segRed lvl space ret (.mk stms result)
      [.mk (.mk params lambdaRet body) neutral shape]) = some tys)
    (eval : computeSegOp true W.machine.toFloatOps call (.segRed lvl space ret (.mk stms result)
      [.mk (.mk params lambdaRet body) neutral shape]) ρ = some outs) :
    Lower.Runs W point E (lowerSegOp cfg prog calleeOf (.segRed lvl space ret (.mk stms result)
      [.mk (.mk params lambdaRet body) neutral shape]) ctx) fun E' vs => Denoted E' vs outs tys := by
  rw [checkSegOp] at check
  obtain ⟨ts, kernel, check⟩ := Option.bind_eq_some_iff.mp check
  obtain ⟨⟨rfl, nonempty, outerLoads, operator⟩, types⟩ := Option.ite_none_right_eq_some.mp check
  rw [toOption_eq_some] at types
  rw [computeSegOp] at eval
  obtain ⟨bounds, hspace, eval⟩ := Option.bind_eq_some_iff.mp eval
  obtain ⟨neutrals, values, eval⟩ := Option.bind_eq_some_iff.mp eval
  obtain ⟨guard, eval⟩ := Option.ite_none_right_eq_some.mp eval
  rw [Bool.not_true, Bool.false_or] at guard
  obtain ⟨fills, covers⟩ := Bool.and_eq_true_iff.mp guard
  obtain ⟨n, last, eval⟩ := Option.bind_eq_some_iff.mp eval
  rw [List.length_map] at eval
  have split := extents_split last
  have folds : ∀ o, InBounds (bounds.map Prod.snd).dropLast o →
      evalReduction W.machine.toFloatOps call space bounds (.mk stms result) params body ρ
        (neutrals.map .prim) n o = some ((evalReduction W.machine.toFloatOps call space bounds
          (.mk stms result) params body ρ (neutrals.map .prim) n o).getD []) := by
    intro o inside
    obtain ⟨ps, eq, _⟩ := (tabulate_eq_some eval).1 o inside
    rw [eq, Option.getD_some]
  have red : RedKernel prog W.machine.toFloatOps Γ ρ space stms result params body neutral ts bounds
      (bounds.map Prod.snd).dropLast n neutrals := by
    refine ⟨foldKernel_of h kernel operator hspace split values, fun read member => ?_, ?_⟩
    · obtain ⟨elem, shape, array⟩ := outer_load outerLoads member
      obtain ⟨a, stored, _⟩ := fills_load fills member
      exact ⟨a, elem, shape, stored, array⟩
    · rw [← split]
      exact filled_of nonempty fills covers
  unfold lowerSegOp
  refine ((lowerSegRed_runs cfg calls h.stands red folds).returns
    (lowerSegRed_types types)).weaken fun E' ws vs _ hvs => ⟨hvs.1, ?_⟩
  obtain ⟨_, ⟨length, results⟩, same⟩ := hvs
  exact .of (tabulated_represents eval length results) same

theorem segScan_denoted (calls : CallsAgree W prog call) (h : Exact E ctx Γ ρ) {lvl : SegLevel}
    {ret lambdaRet postRet : List Ty} {params postParams : List Param} {body postBody : Body}
    {neutral shape : List SubExp} {tys : List MlirTy} {outs : List (FVal F)}
    (check : checkSegOp prog Γ (.segScan lvl space ret (.mk stms result)
      [.mk (.mk params lambdaRet body) neutral shape] (.mk postParams postRet postBody)) = some tys)
    (eval : computeSegOp true W.machine.toFloatOps call (.segScan lvl space ret (.mk stms result)
      [.mk (.mk params lambdaRet body) neutral shape] (.mk postParams postRet postBody)) ρ =
        some outs) :
    Lower.Runs W point E (lowerSegOp cfg prog calleeOf (.segScan lvl space ret (.mk stms result)
      [.mk (.mk params lambdaRet body) neutral shape] (.mk postParams postRet postBody)) ctx)
        fun E' vs => Denoted E' vs outs tys := by
  rw [checkSegOp] at check
  obtain ⟨ts, kernel, check⟩ := Option.bind_eq_some_iff.mp check
  obtain ⟨rets, postType, check⟩ := Option.bind_eq_some_iff.mp check
  obtain ⟨⟨rfl, ranked, postTypes, postFresh, operator⟩, types⟩ :=
    Option.ite_none_right_eq_some.mp check
  rw [toOption_eq_some] at types
  rw [computeSegOp] at eval
  obtain ⟨bounds, hspace, eval⟩ := Option.bind_eq_some_iff.mp eval
  obtain ⟨neutrals, values, eval⟩ := Option.bind_eq_some_iff.mp eval
  rw [List.length_map] at eval
  have rank : bounds.length = space.dims.length := by
    have length := (List.mapM_eq_some.mp hspace).length_eq
    rw [List.length_map] at length
    exact length.symm
  obtain ⟨n, last⟩ : ∃ n, (bounds.map Prod.snd).getLast? = some n := by
    refine Option.ne_none_iff_exists'.mp fun none => ?_
    rw [List.getLast?_eq_none_iff, List.map_eq_nil_iff] at none
    rw [none] at rank
    exact ranked (List.eq_nil_of_length_eq_zero rank.symm)
  have split := extents_split last
  have scan : ScanKernel prog W.machine.toFloatOps Γ ρ space stms result params body postParams
      postBody neutral ts rets bounds (bounds.map Prod.snd).dropLast n neutrals :=
    ⟨foldKernel_of h kernel operator hspace split values, postType, postTypes, postFresh⟩
  let K (p : List Nat) := evalScan W.machine.toFloatOps call space bounds (.mk stms result) params
    body postParams postBody ρ (neutrals.map .prim) p.dropLast (p.getLastD 0)
  have scans : ∀ o j, InBounds (bounds.map Prod.snd).dropLast o → j < n →
      evalScan W.machine.toFloatOps call space bounds (.mk stms result) params body postParams
        postBody ρ (neutrals.map .prim) o j = some ((K (o ++ [j])).getD []) := by
    intro o j inside lt
    have point : evalScan W.machine.toFloatOps call space bounds (.mk stms result) params body
        postParams postBody ρ (neutrals.map .prim) o j = K (o ++ [j]) := by
      simp only [K, List.dropLast_concat, List.getLastD_concat]
    have inside' := inBounds_append inside lt
    rw [← split] at inside'
    obtain ⟨ps, eq, _⟩ := (tabulate_eq_some eval).1 _ inside'
    have eq' : K (o ++ [j]) = some (ps.map .prim) := eq
    rw [point, eq', Option.getD_some]
  unfold lowerSegOp
  refine ((lowerSegScan_passes (R := fun p => (K p).getD []) cfg calls h.stands scan
    scans).runs.returns
    (lowerSegScan_types types)).weaken fun E' ws vs _ hvs => ⟨hvs.1, ?_⟩
  obtain ⟨_, ⟨length, results⟩, same⟩ := hvs
  rw [← split] at results
  exact .of (tabulated_represents eval length results) same

theorem lowerSegOp_denoted (calls : CallsAgree W prog call) (h : Exact E ctx Γ ρ) {op : SegOp}
    {tys : List MlirTy} {outs : List (FVal F)} (check : checkSegOp prog Γ op = some tys)
    (eval : computeSegOp true W.machine.toFloatOps call op ρ = some outs) :
    Lower.Runs W point E (lowerSegOp cfg prog calleeOf op ctx) fun E' vs =>
      Denoted E' vs outs tys := by
  unfold computeSegOp at eval
  split at eval
  · exact segMap_denoted cfg calls h check eval
  · exact segRed_denoted cfg calls h check eval
  · exact segScan_denoted cfg calls h check eval
  · cases eval

end SegOps

end FutharkMlir
