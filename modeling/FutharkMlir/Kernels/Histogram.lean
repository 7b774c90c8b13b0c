import FutharkMlir.Kernels.Lambda
import FutharkMlir.Kernels.Map
import FutharkMlir.Kernels.Scatter

/-! A `SegHist` computes a histogram: every bin combines its old value with the values of the
points that have its index, in whatever order the scatter takes them. -/
namespace FutharkMlir

variable {F : Type}

/-- The operator is associative and commutative on the values of a type: one side has a value
where the other does. -/
structure CommAssoc (op : PVal F → PVal F → Option (PVal F)) (t : PrimType) : Prop where
  comm : ∀ a b : PVal F, a.HasType t → b.HasType t → op a b = op b a
  assoc : ∀ a b c : PVal F, a.HasType t → b.HasType t → c.HasType t →
    (op a b).bind (fun ab => op ab c) = (op b c).bind fun bc => op a bc

/-- Bin `b` combines the old value with the values of the points whose bin it is, each used
once, in every order. -/
def IsHistogram (op : PVal F → PVal F → Option (PVal F)) (bin : List Nat → Nat)
    (value : List Nat → PVal F) (n : Nat) (old new : Tensor (PVal F)) : Prop :=
  new.shape = old.shape ∧ ∀ b, InBounds old.shape [b] →
    ∀ ps : List (List Nat), ps.Perm ((points [n]).filter fun p => bin p = b) →
      ps.foldlM (fun acc p => op acc (value p)) (old.get [b]) = some (new.get [b])

section Operator

variable {op : PVal F → PVal F → Option (PVal F)} {t : PrimType} {value : List Nat → PVal F}

theorem CommAssoc.fold_perm (laws : CommAssoc op t)
    (closed : ∀ a b c, a.HasType t → b.HasType t → op a b = some c → c.HasType t)
    {ps qs : List (List Nat)} (perm : ps.Perm qs) (types : ∀ p ∈ ps, (value p).HasType t)
    {a : PVal F} (ha : a.HasType t) :
    ps.foldlM (fun acc p => op acc (value p)) a = qs.foldlM (fun acc p => op acc (value p)) a := by
  refine List.foldlM_perm (P := fun a => a.HasType t) perm ?_ ?_ ha
  · exact fun p hp s s' hs h => closed s (value p) s' hs (types p hp) h
  · intro p hp q hq s hs
    change (op s (value p)).bind (fun x => op x (value q)) =
      (op s (value q)).bind fun x => op x (value p)
    rw [laws.assoc s _ _ hs (types p hp) (types q hq), laws.comm _ _ (types p hp) (types q hq),
      ← laws.assoc s _ _ hs (types q hq) (types p hp)]

end Operator

section Fold

variable {M : Machine F} {body : Region F} {point : List Nat} {updates t : Tensor (Scalar F)}
  {op : PVal F → PVal F → Option (PVal F)} {ty : PrimType} {bin : List Nat → Nat}
  {value : List Nat → PVal F} {k n : Nat}

/-- The region applies the operator to an update and the current element. -/
def AppliesOp (body : Region F) (point : List Nat) (op : PVal F → PVal F → Option (PVal F))
    (ty : PrimType) : Prop :=
  ∀ x a c, x.HasType ty → a.HasType ty → op x a = some c → c.HasType ty ∧
    ∃ ws, body.run point [.scalar x.lower, .scalar a.lower] = some ([.scalar c.lower], ws)

theorem scatterStep_element (applies : AppliesOp body point op ty) {p : List Nat} {i : Int}
    (shape : t.shape = [k]) (range : 0 ≤ i ∧ i < k) (update : updates.get p = (value p).lower)
    {a c : PVal F} (hx : (value p).HasType ty) (ha : a.HasType ty)
    (current : t.get [i.toNat] = a.lower) (combines : op (value p) a = some c) :
    scatterStep body point updates t (p, i) = some (t.set [i.toNat] c.lower) ∧ c.HasType ty := by
  obtain ⟨hc, ws, run⟩ := applies _ _ _ hx ha combines
  refine ⟨?_, hc⟩
  have inside : 0 ≤ i ∧ i < (t.shape.headD 0 : Nat) := by rw [shape]; exact range
  unfold scatterStep
  rw [if_pos inside, shape]
  simp only [List.tail_cons, points, List.foldlM_cons, List.foldlM_nil, List.append_nil,
    scatterElement, update, current, run, Option.bind_eq_bind, Option.bind_some, Option.pure_def]

theorem AppliesOp.closed (applies : AppliesOp body point op ty) :
    ∀ a b c, a.HasType ty → b.HasType ty → op a b = some c → c.HasType ty :=
  fun a b c ha hb h => (applies a b c ha hb h).1

/-- The scatter leaves in each bin what combining its values in the order of the points
gives. -/
theorem runScatter_combines (applies : AppliesOp body point op ty) (laws : CommAssoc op ty)
    {indices original : Tensor (Scalar F)} {index : List Nat → Int} {old : Tensor (PVal F)}
    (updateShape : updates.shape = [n]) (indexShape : indices.shape = [n])
    (shape : original.shape = [k])
    (hindices : ∀ p, InBounds [n] p →
      (indices.get p).toInt = some (index p) ∧ 0 ≤ index p ∧ index p < k)
    (hupdates : ∀ p, InBounds [n] p → updates.get p = (value p).lower ∧ (value p).HasType ty)
    (hold : ∀ q, InBounds [k] q → original.get q = (old.get q).lower ∧ (old.get q).HasType ty)
    (defined : ∀ b < k, ∃ r, ((points [n]).filter fun p => (index p).toNat = b).foldlM
      (fun acc p => op acc (value p)) (old.get [b]) = some r) :
    ∃ new, runScatter M body point [.tensor updates, .tensor indices, .tensor original] =
        some [.tensor new] ∧ new.shape = [k] ∧
      ∀ b < k, ∀ r, ((points [n]).filter fun p => (index p).toNat = b).foldlM
        (fun acc p => op acc (value p)) (old.get [b]) = some r →
        new.get [b] = r.lower ∧ r.HasType ty := by
  have perm := M.schedule_perm (points [n])
  have inside : ∀ p ∈ M.schedule (points [n]), InBounds [n] p :=
    fun p hp => mem_points.mp (perm.mem_iff.mp hp)
  have order : scatterOrder M indices =
      some ((M.schedule (points [n])).map fun p => (p, index p)) := by
    rw [scatterOrder, indexShape, List.mapM_eq_some, List.forall₂_map_right_iff,
      List.forall₂_same]
    intro p hp
    rw [(hindices p (inside p hp)).1]
    rfl
  have bins : ∀ b, (M.schedule (points [n])).filter (fun p => [(index p).toNat] = [b]) =
      (M.schedule (points [n])).filter fun p => (index p).toNat = b := by
    intro b
    exact List.filter_congr fun p _ => by simp
  have same : ∀ b < k, ((M.schedule (points [n])).filter fun p => (index p).toNat = b).foldlM
      (fun acc p => op acc (value p)) (old.get [b]) =
        ((points [n]).filter fun p => (index p).toNat = b).foldlM
          (fun acc p => op acc (value p)) (old.get [b]) := by
    intro b lt
    refine laws.fold_perm applies.closed (perm.filter _) (fun p hp => ?_)
      (hold [b] (.cons lt .nil)).2
    exact (hupdates p (inside p (List.mem_filter.mp hp).1)).2
  have steps : List.StepsAt (fun s : Tensor (Scalar F) => s.shape = [k])
      (fun s q a => s.get q = a.lower ∧ a.HasType ty)
      (fun s p => scatterStep body point updates s (p, index p))
      (fun acc p => op acc (value p)) (fun p => [(index p).toNat]) (M.schedule (points [n])) := by
    intro p hp s a c hs reads combines
    obtain ⟨update, typed⟩ := hupdates p (inside p hp)
    dsimp only at combines
    rw [laws.comm a _ reads.2 typed] at combines
    obtain ⟨step, hc⟩ := scatterStep_element applies hs (hindices p (inside p hp)).2 update typed
      reads.2 reads.1 combines
    refine ⟨_, step, hs, ⟨by simp [Tensor.set], hc⟩, fun q ne b hq => ?_⟩
    simpa [Tensor.set, ne] using hq
  obtain ⟨new, folds, newShape, holds⟩ := List.foldlM_keyed steps shape fun p hp => by
    have range := (hindices p (inside p hp)).2
    have lt : (index p).toNat < k := by omega
    obtain ⟨r, fold⟩ := defined _ lt
    refine ⟨_, r, hold _ (.cons lt .nil), ?_⟩
    rw [bins, same _ lt, fold]
  refine ⟨new, ?_, newShape, fun b lt r fold => ?_⟩
  · have fits : indices.shape.length = 1 ∧ original.shape ≠ [] ∧
        updates.shape = indices.shape ++ original.shape.tail := by
      simp [indexShape, shape, updateShape]
    simp only [runScatter, if_pos fits, order, Option.bind_eq_bind, Option.bind_some,
      List.foldlM_map, folds, Option.pure_def]
  · refine holds [b] (old.get [b]) r (hold _ (.cons lt .nil)) ?_
    rw [bins, same b lt, fold]

end Fold

section Lowering

variable (cfg : Config) {prog : Prog} {W : World F} {point : List Nat} {E : Env F} {ctx : Ctx}
  {Γ : Types} {ρ : Store F} {call : String → List (FVal F) → Option (List (FVal F))}
  {params : List Param} {body : Body} {t : PrimType}

theorem histBlock_runs (calls : CallsAgree W prog call) (stands : Stands E ctx Γ ρ)
    (type : typeLambda prog Γ params body = some [t])
    (paramTypes : params.map Param.ty = [.prim t, .prim t])
    (fresh : FreshNames Γ (params.map Param.name ++ body.binders)) {tys : List MlirTy}
    (lowered : params.mapM (fun p => lowerTy p.ty) = .ok tys) :
    Lower.Runs W point E (Lower.inBlock tys fun blk => do
      let pairs ← zipEqual cfg params blk
      let local' := ctx.insertAll (pairs.map fun p => (p.1.name, p.2))
      let (returns, _) ← lowerBody cfg prog calleeOf body local'
      return (returns, ())) fun E' r => E' = E ∧ BlockRuns W E r.1
        (fun (i : PVal F × PVal F × PVal F) _ vals => vals = lowerAll [i.1, i.2.1] ∧
          i.1.HasType t ∧ i.2.1.HasType t ∧
          lambdaOp W.machine.toFloatOps call params body ρ i.1 i.2.1 = some i.2.2)
        fun i outs _ => outs = lowerAll [i.2.2] ∧ i.2.2.HasType t := by
  have types' : params.map Param.ty = [t, t].map .prim := paramTypes
  have lowers : LowersTo tys [t, t] := lowersTo_params lowered types'
  refine .inBlock _ _ fun i q vals pre => ?_
  obtain ⟨rfl, hx, ha, combines⟩ := pre
  refine ⟨lowers.length_eq.symm, fun args E₀ sub types values => ?_⟩
  have computes : Computes E₀ args [i.1, i.2.1] [t, t] :=
    ⟨values, .cons hx (.cons ha .nil), HasType.all.mpr (types ▸ lowers)⟩
  have eval : evalLambda W.machine.toFloatOps call params body ρ ([i.1, i.2.1].map .prim) =
      some [.prim i.2.2] := lambdaOp_eq_some.mp combines
  refine .bind (.liftExcept _) fun pairs E₁ _ hpairs => ?_
  obtain ⟨rfl, hpairs⟩ := hpairs
  rw [zipEqual_eq cfg hpairs]
  refine .bind (lowerLambda_runs calls (stands.mono sub) type types' fresh eval computes)
    fun r E₂ _ hr => .pure ?_
  obtain ⟨qs, eq, results⟩ := hr
  obtain ⟨c, rfl, same⟩ := List.map_eq_singleton_iff.mp eq.symm
  cases same
  cases results.types with
  | cons hc _ => exact ⟨_, results.values, rfl, hc⟩

theorem BlockRuns.appliesOp {block : Block} {op : PVal F → PVal F → Option (PVal F)}
    (runs : BlockRuns W E block (fun (i : PVal F × PVal F × PVal F) _ vals =>
        vals = lowerAll [i.1, i.2.1] ∧ i.1.HasType t ∧ i.2.1.HasType t ∧ op i.1 i.2.1 = some i.2.2)
      fun i outs _ => outs = lowerAll [i.2.2] ∧ i.2.2.HasType t) :
    AppliesOp ⟨block.args, fun p vals => execBlock W.machine W.call block p E vals⟩ point op t := by
  intro x a c hx ha combines
  obtain ⟨outs, ws, exec, rfl, hc⟩ := runs (x, a, c) point _ ⟨rfl, hx, ha, combines⟩
  exact ⟨hc, ws, exec⟩

theorem Represents.elements {v : Value} {a : Tensor (PVal F)} {shape : List SubExp}
    (h : Represents E v (.array a)) (type : HasTy v (.array t shape)) :
    ∃ x s e, E v = some (.tensor x) ∧ v.ty = .tensor s e ∧ Fits s x.shape ∧ x.shape = a.shape ∧
      lowerPrimType t = .ok e ∧
      ∀ q, InBounds a.shape q → x.get q = (a.get q).lower ∧ (a.get q).HasType t := by
  obtain ⟨x, s, e, value, ty, fits, same, elements⟩ := h
  obtain ⟨s', e', ty', lowered, _⟩ := type
  cases ty.symm.trans ty'
  refine ⟨x, s, e, value, ty, fits, same, lowered, fun q hq => ⟨(elements q hq).1, ?_⟩⟩
  rw [PVal.HasType, (elements q hq).2, lowered]

variable {space : SegSpace} {g it : IntType} {n k : Nat} {stms : List Stm} {result : List SubExp}
  {index : List Nat → BitVec it.getWidth} {value : List Nat → PVal F} {d : VName}
  {old : Tensor (PVal F)} {shape : List SubExp}

def binOf (index : List Nat → BitVec it.getWidth) (p : List Nat) : Nat := (index p).toInt.toNat

theorem kernelResults_elements {ts : List PrimType} {x v : Value} {a b : Tensor (PVal F)}
    (ha : Represents E x (.array a)) (hb : Represents E v (.array b))
    (ra : IsResult (fun p => [.prim (.int it (index p)), .prim (value p)]) ts [n] 0 a)
    (rb : IsResult (fun p => [.prim (.int it (index p)), .prim (value p)]) [.int it, t] [n] 1 b) :
    ∃ y z : Tensor (Scalar F), [v, x].mapM E = some [.tensor z, .tensor y] ∧ y.shape = [n] ∧
      z.shape = [n] ∧ ∀ p, InBounds [n] p → (y.get p).toInt = some (index p).toInt ∧
        z.get p = (value p).lower ∧ (value p).HasType t := by
  obtain ⟨y, _, _, hy, _, _, yShape, yElements⟩ := ha
  obtain ⟨z, _, _, hz, _, _, zShape, zElements⟩ := hb
  refine ⟨y, z, by simp [hy, hz], yShape.trans ra.1, zShape.trans rb.1, fun p hp => ?_⟩
  obtain ⟨ia, _⟩ := ra.2 p hp
  obtain ⟨ib, s, hs, typed⟩ := rb.2 p hp
  have first : PVal.int it (index p) = a.get p := FVal.prim.inj (Option.some.inj ia)
  have second : value p = b.get p := FVal.prim.inj (Option.some.inj ib)
  cases hs
  rw [← second] at typed
  refine ⟨?_, ?_, typed⟩
  · rw [(yElements p (ra.1 ▸ hp)).1, ← first]
    rfl
  · rw [(zElements p (rb.1 ▸ hp)).1, ← second]

/-- The tensor the scatter leaves is the histogram. -/
theorem histogram_represents {v : Value} {x new : Tensor (Scalar F)} {s : List Int}
    {e : ElemTy} {op : PVal F → PVal F → Option (PVal F)}
    (closed : ∀ a b c : PVal F, a.HasType t → b.HasType t → op a b = some c → c.HasType t)
    (laws : CommAssoc op t) (lowered : lowerPrimType t = .ok e) (fits : Fits s x.shape)
    (same : x.shape = old.shape) (bins : old.shape = [k])
    (typed : ∀ q, InBounds old.shape q → (old.get q).HasType t)
    (values : ∀ p, InBounds [n] p → (value p).HasType t)
    (defined : ∀ b < k, ∃ r, ((points [n]).filter fun p => binOf index p = b).foldlM
      (fun acc p => op acc (value p)) (old.get [b]) = some r)
    (hnew : E v = some (.tensor new)) (ty : v.ty = .tensor s e) (newShape : new.shape = [k])
    (combines : ∀ b < k, ∀ r, ((points [n]).filter fun p => binOf index p = b).foldlM
      (fun acc p => op acc (value p)) (old.get [b]) = some r →
      new.get [b] = r.lower ∧ r.HasType t) :
    ∃ r, Represents E v (.array r) ∧ IsHistogram op (binOf index) value n old r := by
  have : Nonempty (PVal F) := ⟨.bool false⟩
  choose! r hr using defined
  refine ⟨⟨[k], fun q => r (q.headD 0)⟩, ⟨new, s, e, hnew, ty, ?_, newShape, ?_⟩, bins.symm, ?_⟩
  · rw [newShape, ← bins, ← same]
    exact fits
  · intro q hq
    obtain ⟨b, _, lt, none, rfl⟩ := List.forall₂_cons_left_iff.mp hq
    cases none
    obtain ⟨get, type⟩ := combines b lt (r b) (hr b lt)
    exact ⟨get, Except.ok.inj (type.symm.trans lowered)⟩
  · intro b hb ps perm
    rw [bins] at hb
    cases hb with
    | cons lt _ =>
      refine (laws.fold_perm closed perm (fun p hp => ?_)
        (typed [b] (bins ▸ .cons lt .nil))).trans (hr b lt)
      exact values p (mem_points.mp (List.mem_filter.mp (perm.mem_iff.mp hp)).1)

/-- A histogram over the `n` points of a space of rank one: its kernel has an index and a value
at every point, the indices lie in the `k` bins of the destination, and the operator is
associative and commutative. The arrays it loads at gtids are bound outside. -/
structure HistKernel (prog : Prog) (fl : FloatOps F)
    (call : String → List (FVal F) → Option (List (FVal F))) (Γ : Types) (ρ : Store F)
    (space : SegSpace) (stms : List Stm) (result : List SubExp) (d : VName) (params : List Param)
    (body : Body) (g it : IntType) (t : PrimType) (n k : Nat)
    (index : List Nat → BitVec it.getWidth) (value : List Nat → PVal F) (old : Tensor (PVal F)) :
    Prop where
  type : typeKernel prog Γ space (.mk stms result) = some [.int it, t]
  length : evalSpace fl ρ space = some [(g, n)]
  kernel : ∀ p, InBounds [n] p → evalKernel fl call space [(g, n)] (.mk stms result) ρ p =
    some [.prim (.int it (index p)), .prim (value p)]
  fresh : FreshNames Γ (space.dims.map Prod.fst ++ stmsBinders stms)
  loads : ∀ read ∈ space.affineReads stms, ∃ a elem shape,
    ρ read.array = some (.array a) ∧ Γ read.array = some (.array elem shape)
  lambdaType : typeLambda prog Γ params body = some [t]
  paramTypes : params.map Param.ty = [.prim t, .prim t]
  lambdaFresh : FreshNames Γ (params.map Param.name ++ body.binders)
  stored : ρ d = some (.array old)
  array : ∃ shape, Γ d = some (.array t shape)
  bins : old.shape = [k]
  range : ∀ p, InBounds [n] p → 0 ≤ (index p).toInt ∧ (index p).toInt < k
  laws : CommAssoc (lambdaOp fl call params body ρ) t
  defined : ∀ b < k, ∃ r, ((points [n]).filter fun p => binOf index p = b).foldlM
    (fun acc p => lambdaOp fl call params body ρ acc (value p)) (old.get [b]) = some r

/-- The arrays that are loaded at the gtid alone have its bound as their extent. -/
def LoadsFill (ρ : Store F) (space : SegSpace) (stms : List Stm) (n : Nat) : Prop :=
  ∀ read ∈ space.affineReads stms, ∀ a, ρ read.array = some (.array a) →
    a.shape = read.indexMap.project [n]

theorem lowerSegHist_runs (calls : CallsAgree W prog call) (stands : Stands E ctx Γ ρ)
    (h : HistKernel prog W.machine.toFloatOps call Γ ρ space stms result d params body g it t n k
      index value old) (fill : LoadsFill ρ space stms n) {lvl : SegLevel} :
    Lower.Runs W point E (lowerSegHist cfg lvl space stms result [.prim (.int it), .prim t]
      [([d], params)] (lowerKernelStms cfg prog calleeOf stms) (lowerBody cfg prog calleeOf body)
      ctx) fun E' vs => ∃ v r, vs = [v] ∧ Represents E' v (.array r) ∧
        IsHistogram (lambdaOp W.machine.toFloatOps call params body ρ) (binOf index) value n
          old r := by
  obtain ⟨shape, array⟩ := h.array
  have fill' : ReadsFill space [(g, n)] stms Γ ρ := by
    intro read hread
    obtain ⟨a, elem, dims, stored, type⟩ := h.loads read hread
    exact ⟨a, elem, dims, stored, type, fill read hread a stored⟩
  unfold lowerSegHist
  refine .bind (.liftExcept _) fun _ E₁ sub₁ _ => ?_
  refine .bind (lowerSegMap_runs cfg calls h.type rfl (List.cons_ne_nil _ _) h.length h.kernel
    (stands.mono sub₁) h.fresh fill') fun inputs E₂ sub₂ hinputs => ?_
  obtain ⟨length, results⟩ := hinputs
  obtain ⟨indices, values, rfl⟩ := List.length_eq_two.mp length
  obtain ⟨a, ha, ra⟩ := results 0 indices rfl
  obtain ⟨b, hb, rb⟩ := results 1 values rfl
  obtain ⟨dest, bound, rep⟩ := stands.rep d _ h.stored
  obtain ⟨dest', bound', hasTy⟩ := stands.typed d _ array
  cases bound.symm.trans bound'
  dsimp only
  refine .bind (.lift (.returns (lookups_runs ((stands.rep.mono sub₁).mono sub₂) (.cons h.stored .nil))
    (fun ip vs ip' run => (lookups_ok run).1))) fun dests E₃ sub₃ hdests => ?_
  obtain ⟨_, _, seen, none, rfl⟩ := List.forall₂_cons_left_iff.mp hdests.2
  cases none
  cases bound.symm.trans seen
  dsimp only
  have later := sub₁.trans (sub₂.trans sub₃)
  refine .bind (.liftExcept _) fun ranked E₄ _ hranked => ?_
  obtain ⟨rfl, _⟩ := hranked
  obtain ⟨indexShape, _⟩ := ranked
  dsimp only
  split
  · exact .throw
  refine .bind (.liftExcept _) fun tys E₅ _ htys => ?_
  obtain ⟨rfl, lowered⟩ := htys
  refine .bind (histBlock_runs cfg calls (stands.mono later) h.lambdaType h.paramTypes h.lambdaFresh
    lowered) fun block E₆ _ hblock => ?_
  obtain ⟨rfl, runs⟩ := hblock
  obtain ⟨x, s, e, hx, destTy, fits, same, elem, elements⟩ := (rep.mono later).elements hasTy
  obtain ⟨y, z, operands, yShape, zShape, updates⟩ :=
    kernelResults_elements (ha.mono sub₃) (hb.mono sub₃) ra rb
  have applies : AppliesOp _ point _ t := runs.appliesOp
  obtain ⟨new, run, newShape, combines⟩ := runScatter_combines (M := W.machine) applies h.laws zShape
    yShape (same.trans h.bins) (fun p hp => ⟨(updates p hp).1, h.range p hp⟩)
    (fun p hp => (updates p hp).2) (fun q hq => elements q (h.bins ▸ hq)) h.defined
  have all : [values, indices, dest].mapM E₆ = some [.tensor z, .tensor y, .tensor x] := by
    rw [List.mapM_eq_some] at operands ⊢
    cases operands with
    | cons hz rest =>
      cases rest with
      | cons hy _ => exact .cons hz (.cons hy (.cons hx .nil))
  have eval : evalOp W.machine W.call point (.scatter [0] false) [values, indices, dest]
      [.tensor z, .tensor y, .tensor x] [dest.ty] (regionsOf W.machine W.call [block.1] E₆) =
        some ([.tensor new], []) := by
    simp only [evalOp, regionsOf, run, Option.bind_eq_bind, Option.bind_some, Option.pure_def]
  have op : Emit.Runs W point E₆ _ _ := create_runs all eval rfl
  refine .bind (.lift op) fun vs E₇ sub₇ hvs => ?_
  obtain ⟨v, rfl⟩ : ∃ v, vs = [v] := List.length_eq_one_iff.mp (by
    rw [← List.length_map (f := Value.ty), hvs.2]
    rfl)
  refine .bind (.liftExcept _) fun res E₈ _ hres => ?_
  obtain ⟨rfl, first⟩ := hres
  cases first
  have value : E₈ v = some (.tensor new) := by
    cases List.mapM_eq_some.mp hvs.1 with
    | cons h _ => exact h
  have ty : v.ty = .tensor s e := by
    have tys := hvs.2
    rw [List.map_singleton, List.singleton_inj] at tys
    rw [tys, destTy]
  obtain ⟨r, represents, histogram⟩ := histogram_represents applies.closed h.laws elem fits same
    h.bins
    (fun q hq => (elements q hq).2) (fun p hp => (updates p hp).2.2) h.defined value ty
    newShape combines
  exact .pure ⟨rfl, v, r, rfl, represents, histogram⟩

theorem HistKernel.arrays {fl : FloatOps F}
    (h : HistKernel prog fl call Γ ρ space stms result d params body g it t n k index value old) :
    ∃ arrays, List.Forall₂ (fun (read : AffineRead) a => ρ read.array = some (.array a))
      (space.affineReads stms) arrays := by
  have each : ∀ reads : List AffineRead, (∀ read ∈ reads, ∃ a, ρ read.array = some (.array a)) →
      ∃ arrays, List.Forall₂ (fun (read : AffineRead) a => ρ read.array = some (.array a))
        reads arrays := by
    intro reads all
    induction reads with
    | nil => exact ⟨[], .nil⟩
    | cons read reads ih =>
      obtain ⟨⟨a, ha⟩, rest⟩ := List.forall_mem_cons.mp all
      obtain ⟨arrays, seen⟩ := ih rest
      exact ⟨a :: arrays, .cons ha seen⟩
  refine each _ fun read hread => ?_
  obtain ⟨a, _, _, stored, _⟩ := h.loads read hread
  exact ⟨a, stored⟩

/-- Where a load does not fill the space, the `linalg.generic` of the kernel is not valid. -/
theorem segHist_stuck (rep : ctx.Represents E ρ)
    (h : HistKernel prog W.machine.toFloatOps call Γ ρ space stms result d params body g it t n k
      index value old) (unfilled : ¬ LoadsFill ρ space stms n) {lvl : SegLevel}
    {lambdaRet : List Ty} {b b' : Builder} {vs : List Value}
    (run : (lowerSegOp cfg prog calleeOf (.segHist lvl space [.prim (.int it), .prim t]
      (.mk stms result) [.mk [d] (.mk params lambdaRet body)]) ctx).run b = .ok (vs, b'))
    (below : E.Below b.ip.next) {E' : Env F} : ¬ Inserts W point E b.ip b'.ip E' := by
  rintro ⟨new, ops, exec⟩
  unfold lowerSegOp at run
  dsimp only at run
  obtain ⟨before, values, indices, dest, results, region, _, _, mid, _, all, map, first, _⟩ :=
    lowerSegHist_run run
  obtain ⟨arrays, reads⟩ := h.arrays
  have rank : [n].length = space.dims.length := by
    have length := (List.mapM_eq_some.mp h.length).length_eq
    rw [List.length_map] at length
    exact length.symm
  have builds : Lower.Builds W point E (lowerSegMap cfg lvl space stms result
      [.prim (.int it), .prim t] (lowerKernelStms cfg prog calleeOf stms) ctx) _ :=
    lowerSegMap_operands rep h.length reads
  obtain ⟨start, op, E₁, ops', exec', operands⟩ := builds b _ mid map below
  have unfilled' : ¬ KernelShape.Filled ⟨space, stms, space.dims.length, 2⟩ ρ [n] :=
    fun filled => unfilled filled.extents
  have stuck : execOps W.machine W.call [op] point E₁ = none :=
    operands.stuck reads rank rank.symm Nat.two_pos unfilled'
  have same : new = start ++ ([op] ++
      [.mk (.scatter [0] false) [values, indices, dest] results [region]]) := by
    rw [first, List.append_assoc, List.append_cancel_left_eq] at ops'
    rw [all, ops', List.append_assoc, List.append_assoc, List.append_cancel_left_eq] at ops
    rw [← ops]
  simp only [same, execOps_append, exec', stuck, Option.bind_eq_bind, Option.bind_some,
    Option.bind_none, reduceCtorEq] at exec

variable (point) in
/-- The emitted operations compute the histogram just where every array that is loaded at the
gtid alone has the extent of the space. -/
theorem segHist_iff (calls : CallsAgree W prog call) (stands : Stands E ctx Γ ρ)
    (h : HistKernel prog W.machine.toFloatOps call Γ ρ space stms result d params body g it t n k
      index value old) {lvl : SegLevel} {lambdaRet : List Ty} {b b' : Builder} {vs : List Value}
    (run : (lowerSegOp cfg prog calleeOf (.segHist lvl space [.prim (.int it), .prim t]
      (.mk stms result) [.mk [d] (.mk params lambdaRet body)]) ctx).run b = .ok (vs, b'))
    (below : E.Below b.ip.next) :
    (∃ E' v r, Inserts W point E b.ip b'.ip E' ∧ vs = [v] ∧ Represents E' v (.array r) ∧
      IsHistogram (lambdaOp W.machine.toFloatOps call params body ρ) (binOf index) value n old r) ↔
        LoadsFill ρ space stms n := by
  constructor
  · rintro ⟨E', v, r, inserts, _⟩
    by_contra unfilled
    exact segHist_stuck cfg stands.rep h unfilled run below inserts
  · intro fill
    unfold lowerSegOp at run
    dsimp only at run
    obtain ⟨new, E', _, ops, exec, _, _, rfl, v, r, eq, represents, histogram⟩ :=
      lowerSegHist_runs cfg calls stands h fill b vs b' run below
    exact ⟨E', v, r, ⟨new, ops, exec⟩, eq, represents, histogram⟩

end Lowering

section Examples

/-- The histogram over four points that adds the elements it loads to the first of them. -/
def addingHist : SegOp :=
  .segHist .thread doublingKernel.space [.prim (.int .int64), .prim (.int .int64)]
    (.mk loadStms [.const (.createInt 0 64), .var "x"])
    [.mk ["xs"] (.mk sumParams [.prim (.int .int64)] sumBody)]

theorem sum_lambda (ρ : Store Unit) (v w : BitVec 64) :
    lambdaOp unitMachine.toFloatOps (fun _ _ => none) sumParams sumBody ρ (.int .int64 v)
      (.int .int64 w) = some (.int .int64 (v + w)) := by
  rw [lambdaOp_eq_some]
  have sum : BitVec.ofInt 64 (v.toInt + w.toInt) = v + w := by
    rw [BitVec.ofInt_add, BitVec.ofInt_toInt, BitVec.ofInt_toInt]
  rw [← sum]
  rfl

theorem hasType_int64 {a : PVal Unit} (h : a.HasType (.int .int64)) :
    ∃ v : BitVec 64, a = .int .int64 v := by
  cases a with
  | int t v => cases t <;> first | exact ⟨v, rfl⟩ | cases h
  | float t x => cases h
  | bool b => cases h

theorem sum_commAssoc (ρ : Store Unit) :
    CommAssoc (lambdaOp unitMachine.toFloatOps (fun _ _ => none) sumParams sumBody ρ)
      (.int .int64) := by
  constructor
  · intro a b ha hb
    obtain ⟨v, rfl⟩ := hasType_int64 ha
    obtain ⟨w, rfl⟩ := hasType_int64 hb
    rw [sum_lambda, sum_lambda, BitVec.add_comm]
  · intro a b c ha hb hc
    obtain ⟨u, rfl⟩ := hasType_int64 ha
    obtain ⟨v, rfl⟩ := hasType_int64 hb
    obtain ⟨w, rfl⟩ := hasType_int64 hc
    simp only [sum_lambda, Option.bind_some, BitVec.add_assoc]

def elementAt (m : Nat) (p : List Nat) : PVal Unit := .int .int64 (BitVec.ofNat 64 (linear [m] p))

theorem sum_defined (ρ : Store Unit) (m : Nat) (ps : List (List Nat)) (v : BitVec 64) :
    ∃ r, ps.foldlM (fun acc p => lambdaOp unitMachine.toFloatOps (fun _ _ => none) sumParams
      sumBody ρ acc (elementAt m p)) (.int .int64 v) = some r := by
  induction ps generalizing v with
  | nil => exact ⟨_, rfl⟩
  | cons p ps ih =>
    rw [List.foldlM_cons, elementAt, sum_lambda]
    exact ih _

def firstBin (_ : List Nat) : BitVec IntType.int64.getWidth := 0

theorem addingHist_eval {m : Nat} (longer : m = 4 ∨ m = 6) {p : List Nat} (inside : InBounds [4] p) :
    evalKernel unitMachine.toFloatOps (fun _ _ => none) doublingKernel.space [(.int64, 4)]
      (.mk loadStms [.const (.createInt 0 64), .var "x"]) (numbersStore m) p =
        some [.prim (.int .int64 (firstBin p)), .prim (elementAt m p)] := by
  obtain ⟨i, _, lt, rest, rfl⟩ := List.forall₂_cons_left_iff.mp inside
  cases rest
  rcases longer with rfl | rfl
  all_goals
    match i, lt with
    | 0, _ => rfl
    | 1, _ => rfl
    | 2, _ => rfl
    | 3, _ => rfl

theorem addingHist_kernel {m : Nat} (longer : m = 4 ∨ m = 6) :
    HistKernel emptyProg unitMachine.toFloatOps (fun _ _ => none) (numbersTypes m)
      (numbersStore m) doublingKernel.space loadStms [.const (.createInt 0 64), .var "x"] "xs" sumParams sumBody
      .int64 .int64 (.int .int64) 4 m firstBin (elementAt m) (numbers m) where
  type := by rcases longer with rfl | rfl <;> rfl
  length := rfl
  kernel _ inside := addingHist_eval longer inside
  fresh := numbersTypes_fresh (by decide) (by decide)
  loads := by
    intro read hread
    rw [loadStms_affineReads] at hread
    cases List.mem_singleton.mp hread
    exact ⟨numbers m, _, _, Binding.insert_self _ _ _, Binding.insert_self _ _ _⟩
  lambdaType := by rcases longer with rfl | rfl <;> rfl
  paramTypes := rfl
  lambdaFresh := numbersTypes_fresh (by decide) (by decide)
  stored := Binding.insert_self _ _ _
  array := ⟨_, Binding.insert_self _ _ _⟩
  bins := rfl
  range := by
    intro p _
    have some : 0 < m := by omega
    exact ⟨le_refl _, Int.ofNat_lt.mpr some⟩
  laws := sum_commAssoc _
  defined b _ := sum_defined _ _ _ _

theorem addingHist_run {m : Nat} (longer : m = 4 ∨ m = 6) : ∃ vs b',
    (lowerSegOp releaseConfig emptyProg calleeOf addingHist (numbersCtx m)).run afterArray =
      .ok (vs, b') := by
  obtain ⟨⟨vs, b'⟩, run⟩ := Except.exists_ok (x := (lowerSegOp releaseConfig emptyProg calleeOf
    addingHist (numbersCtx m)).run afterArray) (by rcases longer with rfl | rfl <;> decide +kernel)
  exact ⟨vs, b', run⟩

theorem addingHist_fills (m : Nat) :
    LoadsFill (numbersStore m) doublingKernel.space loadStms 4 ↔ m = 4 := by
  constructor
  · intro fill
    have extents := fill ⟨"x", "xs", ⟨1, [0]⟩⟩ (by decide) (numbers m) (Binding.insert_self _ _ _)
    exact (List.cons.inj extents).1
  · rintro rfl read hread a ha
    rw [loadStms_affineReads] at hread
    cases List.mem_singleton.mp hread
    cases (Binding.insert_self _ _ _).symm.trans ha
    rfl

/-- All four points have the first bin. -/
theorem segHist_iff_adding : ∃ vs b' E' v r,
    (lowerSegOp releaseConfig emptyProg calleeOf addingHist (numbersCtx 4)).run afterArray =
      .ok (vs, b') ∧
    Inserts ⟨unitMachine, fun _ _ => none⟩ [] (numbersEnv 4) afterArray.ip b'.ip E' ∧ vs = [v] ∧
    Represents E' v (.array r) ∧ IsHistogram (lambdaOp unitMachine.toFloatOps (fun _ _ => none)
      sumParams sumBody (numbersStore 4)) (binOf firstBin) (elementAt 4) 4 (numbers 4) r := by
  let W : World Unit := ⟨unitMachine, fun _ _ => none⟩
  have calls : CallsAgree W emptyProg fun _ _ => none := emptyProg_calls W _
  obtain ⟨vs, b', run⟩ := addingHist_run (.inl rfl)
  obtain ⟨E', v, r, computes⟩ := (segHist_iff releaseConfig [] calls (numbers_stands 4)
    (addingHist_kernel (.inl rfl)) run (numbers_below 4)).mpr ((addingHist_fills 4).mpr rfl)
  exact ⟨vs, b', E', v, r, run, computes⟩

/-- A kernel over four points that loads from a longer array: what is emitted does not run. -/
theorem segHist_longer : ¬ ∀ (cfg : Config) (prog : Prog) (W : World Unit) (E : Env Unit)
    (ctx : Ctx) (Γ : Types) (ρ : Store Unit)
    (call : String → List (FVal Unit) → Option (List (FVal Unit))) (lvl : SegLevel)
    (space : SegSpace) (stms : List Stm) (result : List SubExp) (d : VName) (params : List Param)
    (lambdaRet : List Ty) (body : Body) (g it : IntType) (t : PrimType) (n k : Nat)
    (index : List Nat → BitVec it.getWidth) (value : List Nat → PVal Unit)
    (old : Tensor (PVal Unit)) (b b' : Builder) (vs : List Value),
    CallsAgree W prog call → Stands E ctx Γ ρ →
    HistKernel prog W.machine.toFloatOps call Γ ρ space stms result d params body g it t n k
      index value old →
    (lowerSegOp cfg prog calleeOf (.segHist lvl space [.prim (.int it), .prim t]
      (.mk stms result) [.mk [d] (.mk params lambdaRet body)]) ctx).run b = .ok (vs, b') →
    E.Below b.ip.next →
    ∃ E' v r, Inserts W [] E b.ip b'.ip E' ∧ vs = [v] ∧ Represents E' v (.array r) ∧
      IsHistogram (lambdaOp W.machine.toFloatOps call params body ρ) (binOf index) value n
        old r := by
  intro claim
  let W : World Unit := ⟨unitMachine, fun _ _ => none⟩
  have calls : CallsAgree W emptyProg fun _ _ => none := emptyProg_calls W _
  obtain ⟨vs, b', run⟩ := addingHist_run (.inr rfl)
  have kernel := addingHist_kernel (.inr rfl)
  obtain ⟨E', v, r, inserts, _⟩ := claim _ _ W _ _ _ _ _ _ _ _ _ _ _ _ _ _ _ _ _ _ _ _ _ _ b' vs
    calls (numbers_stands 6) kernel run (numbers_below 6)
  have unfilled : ¬ LoadsFill (numbersStore 6) doublingKernel.space loadStms 4 :=
    fun fill => absurd ((addingHist_fills 6).mp fill) (by decide)
  exact segHist_stuck releaseConfig (numbers_stands 6).rep kernel unfilled run (numbers_below 6)
    inserts

end Examples

end FutharkMlir
