import FutharkMlir.Programs.Kernels

namespace FutharkMlir

variable {F : Type}

def Held (ty : MlirTy) (x : MVal F) : FVal F → Prop
  | .prim p => x = .scalar p.lower ∧ ty = .scalar p.elemTy
  | .array a => ∃ t shape elem, x = .tensor t ∧ ty = .tensor shape elem ∧ Fits shape t.shape ∧
      t.shape = a.shape ∧
      ∀ p, InBounds a.shape p → t.get p = (a.get p).lower ∧ (a.get p).elemTy = elem

abbrev HeldAll (tys : List MlirTy) (xs : List (MVal F)) (vals : List (FVal F)) : Prop :=
  List.Forall₃ Held tys xs vals

section Held

variable {E : Env F} {vs : List Value} {tys : List MlirTy} {xs : List (MVal F)}
  {vals : List (FVal F)}

theorem represents_iff {v : Value} {val : FVal F} :
    Represents E v val ↔ ∃ x, E v = some x ∧ Held v.ty x val := by
  cases val with
  | prim p =>
    constructor
    · rintro ⟨value, ty⟩
      exact ⟨_, value, rfl, ty⟩
    · rintro ⟨_, value, rfl, ty⟩
      exact ⟨value, ty⟩
  | array a =>
    constructor
    · rintro ⟨t, s, e, value, rest⟩
      exact ⟨_, value, t, s, e, rfl, rest⟩
    · rintro ⟨_, value, t, s, e, rfl, rest⟩
      exact ⟨t, s, e, value, rest⟩

theorem Denoted.held (h : Denoted E vs vals tys) :
    ∃ xs, vs.mapM E = some xs ∧ HeldAll tys xs vals := by
  induction h with
  | nil => exact ⟨[], rfl, .nil⟩
  | cons head _ ih =>
    obtain ⟨xs, seen, held⟩ := ih
    obtain ⟨rep, rfl⟩ := head
    obtain ⟨x, value, holds⟩ := represents_iff.mp rep
    exact ⟨x :: xs, by simp [value, seen], .cons holds held⟩

theorem Denoted.of_held (h : HeldAll tys xs vals) (seen : vs.mapM E = some xs)
    (types : vs.map Value.ty = tys) : Denoted E vs vals tys := by
  rw [List.mapM_eq_some] at seen
  subst types
  induction seen generalizing vals with
  | nil =>
    cases h
    exact .nil
  | cons value _ ih =>
    cases h with
    | cons head tail => exact .cons ⟨represents_iff.mpr ⟨_, value, head⟩, rfl⟩ (ih tail)

theorem lowerTy_prim {t : PrimType} {ty : MlirTy} :
    lowerTy (.prim t) = .ok ty ↔ ∃ e, lowerPrimType t = .ok e ∧ ty = .scalar e := by
  simp only [lowerTy, Except.bind_eq_ok, Except.pure_eq_ok]
  exact exists_congr fun e => and_congr_right fun _ => eq_comm

theorem heldAll_prims {ts : List PrimType} (lowers : LowersTo tys ts) {ps : List (PVal F)}
    (h : List.Forall₂ PVal.HasType ps ts) : HeldAll tys (lowerAll ps) (ps.map .prim) := by
  induction lowers generalizing ps with
  | nil =>
    cases h
    exact .nil
  | cons hty _ ih =>
    cases h with
    | cons hp hps =>
      obtain ⟨e, lowered, rfl⟩ := lowerTy_prim.mp hty
      cases lowered.symm.trans hp
      exact .cons ⟨rfl, rfl⟩ (ih hps)

theorem HeldAll.prims {ts : List PrimType} (lowers : LowersTo tys ts) (h : HeldAll tys xs vals) :
    ∃ qs : List (PVal F), vals = qs.map .prim ∧ List.Forall₂ PVal.HasType qs ts ∧
      xs = lowerAll qs := by
  induction lowers generalizing xs vals with
  | nil =>
    cases h
    exact ⟨[], rfl, .nil, rfl⟩
  | cons hty _ ih =>
    cases h with
    | @cons _ x val _ _ _ head tail =>
      obtain ⟨qs, rfl, types, rfl⟩ := ih tail
      obtain ⟨e, lowered, rfl⟩ := lowerTy_prim.mp hty
      cases val with
      | prim q =>
        obtain ⟨rfl, elem⟩ := head
        cases elem
        exact ⟨q :: qs, rfl, .cons lowered types, rfl⟩
      | array a =>
        obtain ⟨_, _, _, _, tensor, _⟩ := head
        cases tensor

end Held

/-- The functions of the module compute what those of the program do, on arguments that fit
what they declare. -/
structure CallsMatch (W : World F) (prog : Prog)
    (call : String → List (FVal F) → Option (List (FVal F))) : Prop where
  fits : ∀ f, findFunction prog f.name = some f → ∀ vals outs, call f.name vals = some outs →
    allFit (f.params.map Param.ty) vals = true
  agree : ∀ f, findFunction prog f.name = some f → f.lowered = true → ∀ params rets,
    lowerTys (f.params.map Param.ty) = some params → lowerTys f.retType = some rets →
    ∀ xs vals outs, HeldAll params xs vals → call f.name vals = some outs →
      ∃ ys, W.call f.name xs = some ys ∧ HeldAll rets ys outs

section Bodies

variable {W : World F} {point : List Nat} {E : Env F} {cfg : Config} {prog : Prog} {Γ Γ' : Types}
  {ctx : Ctx} {ρ ρ' : Store F} {call : String → List (FVal F) → Option (List (FVal F))}

theorem CallsMatch.scalars (calls : CallsMatch W prog call) : CallsAgree W prog call := by
  intro fname sig h ps outs types result
  obtain ⟨f, func, found, lowered, hfunc, lowersArgs, lowersRets⟩ := scalarSig_lowers h
  have name : f.name = fname := by simpa using List.find?_some found
  subst name
  simp only [funcSig, Except.bind_eq_ok, Except.pure_eq_ok] at hfunc
  obtain ⟨rets, hrets, params, hparams, rfl⟩ := hfunc
  obtain ⟨ys, run, held⟩ := calls.agree f found lowered params rets (toOption_eq_some.mpr hparams)
    (toOption_eq_some.mpr hrets) _ _ outs (heldAll_prims lowersArgs types) result
  obtain ⟨qs, rfl, types', rfl⟩ := held.prims lowersRets
  exact ⟨qs, rfl, types', run⟩

theorem Exact.kept {ctx' : Ctx} (h : Exact E ctx Γ ρ) (kept : Kept Γ ctx ctx') :
    Exact E ctx' Γ ρ := ⟨h.typed.congr kept, (h.stands.kept kept).rep, h.covers⟩

/-- Names are bound to values of just the types that are declared. -/
theorem Exact.bind (h : Exact E ctx Γ ρ) {names : List VName} {vs : List Value}
    {vals : List (FVal F)} {tys : List Ty} {dsts : List MlirTy} (denoted : Denoted E vs vals dsts)
    (lowered : lowerTys tys = some dsts) (types : Γ.bind names tys = some Γ')
    (values : ρ.bind names vals = some ρ') :
    Exact E (ctx.insertAll (names.zip vs)) Γ' ρ' := by
  refine ⟨h.typed.insertAll types (exact_values ?_), ?_, Binding.bind_covers h.covers values types⟩
  · rw [denoted.types]
    exact lowered
  · have rel : ctx.Related (Represents E) ρ := h.rep
    exact rel.insertAll values denoted.represents

abbrev StmsDone (ctx : Ctx) (Γ Γ' : Types) (ρ' : Store F) (E : Env F) (c : Ctx) : Prop :=
  Exact E c Γ' ρ' ∧ Kept Γ ctx c ∧ Γ.Sub Γ'

abbrev ExpDone (ctx : Ctx) (Γ : Types) (tys : List MlirTy) (vals : List (FVal F)) (E : Env F)
    (p : List Value × Ctx) : Prop :=
  Denoted E p.1 vals tys ∧ Kept Γ ctx p.2

theorem lowerStm_of_done {exp : Exp} {pat : List PatElem} {tys : List MlirTy}
    {vals : List (FVal F)} (h : Exact E ctx Γ ρ) (fresh : FreshNames Γ (pat.map PatElem.name))
    (done : Lower.Runs W point E (lowerExp cfg prog calleeOf exp ctx) (ExpDone ctx Γ tys vals))
    (declared : lowerTys (pat.map PatElem.ty) = some tys)
    (bound : Γ.bind (pat.map PatElem.name) (pat.map PatElem.ty) = some Γ')
    (values : ρ.bind (pat.map PatElem.name) vals = some ρ') :
    Lower.Runs W point E (lowerStm cfg prog calleeOf (.mk pat exp) ctx)
      (StmsDone ctx Γ Γ' ρ') := by
  unfold lowerStm
  refine .bind (.recording done) fun p E₁ sub₁ hp => ?_
  obtain ⟨vs, c⟩ := p
  refine .bind (.liftExcept _) fun pairs E₂ sub₂ hpairs => ?_
  obtain ⟨rfl, hpairs⟩ := hpairs
  rw [zipEqual_eq cfg hpairs, zip_map_fst]
  refine .pure ⟨rfl, ?_, hp.2.trans (.insertAll fresh c), fresh.extends_bind bound⟩
  exact ((h.mono sub₁).kept hp.2).bind hp.1 declared bound values

theorem lowerApply_denoted (calls : CallsMatch W prog call) (h : Exact E ctx Γ ρ) {f : FunDef}
    {fname : String} {args : List SubExp} {retTypes : List Ty} {argTys params rets tys : List MlirTy}
    (found : findFunction prog fname = some f) (lowered : f.lowered = true)
    (check : args.mapM (loweredType Γ) = some argTys)
    (hparams : lowerTys (f.params.map Param.ty) = some params)
    (hrets : lowerTys f.retType = some rets) (htys : lowerTys retTypes = some tys)
    (argCasts : allCastable argTys params = true) (retCasts : allCastable rets tys = true)
    {vals outs : List (FVal F)}
    (eval : args.mapM (evalSubExp W.machine.toFloatOps ρ) = some vals)
    (result : call fname vals = some outs) (fits : allFit retTypes outs = true) :
    Lower.Runs W point E (lowerApply cfg prog calleeOf fname args retTypes ctx) fun E' vs =>
      Denoted E' vs outs tys := by
  have name : f.name = fname := by simpa using List.find?_some found
  subst name
  have casts := castable_all (calls.fits f found vals outs result) hparams argCasts
  have casts' := castable_all fits htys retCasts
  have lowersTo := toOption_eq_some.mp htys
  unfold lowerApply
  rw [found]
  refine .bind (.liftExcept _) fun tys' E₁ sub₁ same => ?_
  obtain ⟨rfl, same⟩ := same
  cases lowersTo.symm.trans same
  refine .bind (calleeOf_runs lowered (funcSig_of hparams hrets)) fun c E₂ sub₂ hc => ?_
  obtain ⟨rfl, rfl⟩ := hc
  unfold lowerCallee
  have called : Emit.Runs W point E₂ (do
      let pairs ← zipEqual cfg args params
      let vs ← lowerCallArgs ctx pairs
      Emit.create (.call f.name) vs rets []) fun E' vs => Denoted E' vs outs rets := by
    refine .bind (.liftExcept _) fun pairs E₃ sub₃ hpairs => ?_
    obtain ⟨rfl, hpairs⟩ := hpairs
    rw [zipEqual_eq cfg hpairs]
    refine .bind (lowerCallArgs_denoted h check eval casts) fun vs E₄ sub₄ hvs => ?_
    obtain ⟨xs, seen, held⟩ := hvs.held
    obtain ⟨ys, run, held'⟩ := calls.agree f found lowered params rets hparams hrets xs vals outs
      held result
    refine (create_runs seen ?_ held'.length₁₂.symm).weaken fun E' ws us _ hus =>
      ⟨hus.1, .of_held held' hus.2.1 hus.2.2⟩
    simp [evalOp, regionsOf, run]
  refine .bind (.lift called) fun vs E₃ sub₃ hvs => ?_
  refine .bind (.liftExcept _) fun pairs E₄ sub₄ hpairs => ?_
  obtain ⟨rfl, hpairs⟩ := hpairs
  rw [zipEqual_eq cfg hpairs]
  exact .lift (castAll_denoted hvs casts')

section Loops

variable {merge : List (Param × SubExp)} {i : VName} {t : IntType} {inner : Types}
  {body : Ctx → Lower (List Value × Ctx)} {bodyEval : Store F → Option (List (FVal F))}
  {srcs dsts results : List MlirTy}

/-- An iteration binds the counter and what is carried, runs the body, and casts the results to
the types that are carried. -/
theorem iteration_denoted (h : Exact E ctx Γ ρ)
    (lowered : lowerTys (merge.map fun m => m.1.ty) = some dsts)
    (hinner : (Γ.insert i (.prim (.int t))).bind (mergeNames merge) (merge.map fun m => m.1.ty) =
      some inner)
    (step : ∀ E' c ρ' outs, Exact E' c inner ρ' → bodyEval ρ' = some outs →
      Lower.Runs W point E' (body c) (ExpDone c inner results outs))
    (casts : ∀ ρ' outs, bodyEval ρ' = some outs → List.Forall₃ Castable outs results dsts)
    {k : Nat} {vals outs : List (FVal F)} {xs : List (MVal F)} (held : HeldAll dsts xs vals)
    (values : (ρ.insert i (.prim (.int t (BitVec.ofNat t.getWidth k)))).bind (mergeNames merge)
      vals = some ρ') (eval : bodyEval ρ' = some outs) {args : List Value}
    (types : args.map Value.ty = .index :: dsts)
    (seen : args.mapM E = some (.ofIndex k :: xs)) :
    Lower.Runs W point E (do
      let iv ← indexed args 0
      let counter ← indexCast iv (.int t.getWidth)
      let pairs ← zipEqual cfg merge (args.drop 1)
      let local' := (ctx.insert i counter).insertAll (pairs.map fun p => (p.1.1.name, p.2))
      let (results, _) ← body local'
      let typedResults ← zipEqual cfg results dsts
      let yield ← castAll typedResults
      return (yield, ())) fun E' p => Denoted E' p.1 outs dsts := by
  cases args with
  | nil => cases types
  | cons iv rest =>
    obtain ⟨_, restTypes⟩ := List.cons.inj types
    simp only [List.mapM_cons, Option.bind_eq_bind, Option.bind_eq_some_iff, Option.pure_def,
      Option.some.injEq, List.cons.injEq] at seen
    obtain ⟨x, hx, xs, hxs, rfl, rfl⟩ := seen
    refine .bind (.liftExcept _) fun iv' E₁ sub₁ hiv => ?_
    obtain ⟨rfl, hiv⟩ := hiv
    cases hiv
    refine .bind (.lift (counter_runs hx)) fun counter E₂ sub₂ hcounter => ?_
    refine .bind (.liftExcept _) fun pairs E₃ sub₃ hpairs => ?_
    obtain ⟨rfl, hpairs⟩ := hpairs
    rw [zipEqual_eq cfg hpairs, List.drop_one, List.tail_cons,
      zip_map_fst (f := fun m : Param × SubExp => m.1.name)]
    have carried : Denoted E₃ rest vals dsts := .of_held held (sub₂.mapM hxs) restTypes
    have all : Denoted E₃ (counter :: rest) (.prim (.int t (BitVec.ofNat t.getWidth k)) :: vals)
        (.scalar (.int t.getWidth) :: dsts) := .cons ⟨hcounter, hcounter.2⟩ carried
    have tys : lowerTys (.prim (.int t) :: merge.map fun m => m.1.ty) =
        some (.scalar (.int t.getWidth) :: dsts) := by
      rw [lowerTys, toOption_eq_some, Except.mapM_eq_ok] at lowered ⊢
      exact .cons rfl lowered
    have types : Γ.bind (i :: mergeNames merge) (.prim (.int t) :: merge.map fun m => m.1.ty) =
      some inner := hinner
    have bound : Exact E₃ ((ctx.insert i counter).insertAll ((mergeNames merge).zip rest)) inner ρ' :=
      (h.mono sub₂).bind all tys types values
    refine .bind (step E₃ _ ρ' outs bound eval) fun p E₄ sub₄ hp => ?_
    refine .bind (.liftExcept _) fun typedResults E₅ sub₅ htyped => ?_
    obtain ⟨rfl, htyped⟩ := htyped
    rw [zipEqual_eq cfg htyped]
    refine .bind (.lift (castAll_denoted hp.1 (casts ρ' outs eval))) fun yield E₆ sub₆ hyield => ?_
    exact .pure ⟨rfl, hyield⟩

/-- What is known when an iteration is entered: the count, what is carried and what the body makes
of it. -/
def CarryEnter (point : List Nat) (merge : List (Param × SubExp)) (i : VName) (t : IntType)
    (dsts : List MlirTy) (bodyEval : Store F → Option (List (FVal F))) (ρ : Store F)
    (g : Nat × List (FVal F) × List (FVal F)) (at' : List Nat) (args : List (MVal F)) : Prop :=
  at' = point ∧ (∃ xs, args = .ofIndex g.1 :: xs ∧ HeldAll dsts xs g.2.1) ∧
    ∃ ρ', (ρ.insert i (.prim (.int t (BitVec.ofNat t.getWidth g.1)))).bind (mergeNames merge)
      g.2.1 = some ρ' ∧ bodyEval ρ' = some g.2.2

def CarryLeave (dsts : List MlirTy) (g : Nat × List (FVal F) × List (FVal F))
    (outs : List (MVal F)) (_ : List (Write F)) : Prop := HeldAll dsts outs g.2.2

theorem runFor_held {block : Block} {n : BitVec t.getWidth} {xs : List (MVal F)}
    {inits outs : List (FVal F)} (held : HeldAll dsts xs inits)
    (runs : BlockRuns W E block (CarryEnter point merge i t dsts bodyEval ρ) (CarryLeave dsts))
    (eval : evalFor i t (mergeNames merge) bodyEval ρ n.toInt inits = some outs) :
    ∃ ys, HeldAll dsts ys outs ∧ ∀ operands resTys, evalOp W.machine W.call point .scfFor operands
      (.scalar (.index (BitVec.ofInt 64 0)) :: .scalar (.index (n.signExtend 64)) ::
        .scalar (.index (BitVec.ofInt 64 1)) :: xs) resTys
      (regionsOf W.machine W.call [block] E) = some (ys, []) := by
  have le : t.getWidth ≤ 64 := by cases t <;> decide
  have toInt : (n.signExtend 64).toInt = n.toInt := BitVec.toInt_signExtend_of_le le
  let region : Region F := ⟨block.args, fun at' vals => execBlock W.machine W.call block at' E vals⟩
  have step : ∀ k < (n.signExtend 64).toInt.toNat, ∀ c d c', HeldAll dsts d c →
      (do
        let counter := FVal.prim (.int t (BitVec.ofNat t.getWidth k))
        let ρ' ← (ρ.insert i counter).bind (mergeNames merge) c
        bodyEval ρ') = some c' → ∃ d' ws, region.run point (MVal.ofIndex k :: d) = some (d', ws) ∧
        d'.length = xs.length ∧ HeldAll dsts d' c' := by
    intro k _ c d c' carried eq
    obtain ⟨ρ', bound, result⟩ := Option.bind_eq_some_iff.mp eq
    obtain ⟨outs, ws, exec, leave⟩ :=
      runs (k, c, c') point _ ⟨rfl, ⟨d, rfl, carried⟩, ρ', bound, result⟩
    refine ⟨outs, ws, exec, ?_, leave⟩
    rw [← List.Forall₃.length₁₂ leave, held.length₁₂]
  rw [evalFor, ← toInt] at eval
  obtain ⟨ys, run, held'⟩ := runFor_counted (R := fun c d => HeldAll dsts d c) region step held eval
  refine ⟨ys, held', fun operands resTys => ?_⟩
  simp only [evalOp, regionsOf]
  rw [run]
  rfl

theorem lowerLoop_denoted (h : Exact E ctx Γ ρ) {bound : SubExp}
    (lowered : lowerTys (merge.map fun m => m.1.ty) = some dsts)
    (check : (merge.map Prod.snd).mapM (loweredType Γ) = some srcs)
    (hinner : (Γ.insert i (.prim (.int t))).bind (mergeNames merge) (merge.map fun m => m.1.ty) =
      some inner)
    (step : ∀ E' c ρ' outs, Exact E' c inner ρ' → bodyEval ρ' = some outs →
      Lower.Runs W point E' (body c) (ExpDone c inner results outs))
    (casts : ∀ ρ' outs, bodyEval ρ' = some outs → List.Forall₃ Castable outs results dsts)
    {inits outs : List (FVal F)} {n : BitVec t.getWidth}
    (hinits : (merge.map Prod.snd).mapM (evalSubExp W.machine.toFloatOps ρ) = some inits)
    (initCasts : List.Forall₃ Castable inits srcs dsts)
    (hn : evalPrim W.machine.toFloatOps ρ bound = some (.int t n))
    (eval : evalFor i t (mergeNames merge) bodyEval ρ n.toInt inits = some outs) :
    Lower.Runs W point E (lowerLoop cfg merge (.forLoop i t bound) body ctx) fun E' vs =>
      Denoted E' vs outs dsts := by
  unfold lowerLoop
  refine .bind (.lift (loopInits_denoted h lowered check hinits initCasts)) fun typed E₁ sub₁ htyped => ?_
  obtain ⟨mergeTypes, denoted⟩ := htyped
  obtain ⟨xs, values, held⟩ := denoted.held
  refine .bind (.lift createConstant_runs) fun lb E₂ sub₂ hlb => ?_
  have h₂ := (h.mono sub₁).mono sub₂
  refine .bind (.lift (lowerPrim_runs h₂.rep hn)) fun v E₃ sub₃ hv => ?_
  refine .bind (.lift (indexCast_int_runs hv)) fun ub E₄ sub₄ hub => ?_
  refine .bind (.lift createConstant_runs) fun one E₅ sub₅ hone => ?_
  have h₅ := ((h₂.mono sub₃).mono sub₄).mono sub₅
  rw [mergeTypes, denoted.types]
  refine .bind (.inBlock (CarryEnter point merge i t dsts bodyEval ρ) (CarryLeave dsts)
    fun g at' vals enter => ?_) fun p E₆ sub₆ hp => ?_
  · obtain ⟨rfl, ⟨ys, rfl, carried⟩, ρ', bound, result⟩ := enter
    refine ⟨?_, fun args E₀ sub₀ hargs seen => ?_⟩
    · rw [List.length_cons, List.length_cons, carried.length₁₂]
    · refine (iteration_denoted (h₅.mono sub₀) lowered hinner step casts carried bound result hargs
        seen).weaken fun E' ws r _ hr => ?_
      obtain ⟨ys, yields, left⟩ := hr.2.held
      exact ⟨ys, yields, left⟩
  · obtain ⟨block, u⟩ := p
    obtain ⟨rfl, runs⟩ := hp
    obtain ⟨ys, held', evalFor⟩ := runFor_held held runs eval
    have seen : (lb :: ub :: one :: typed.map Prod.snd).mapM E₆ =
        some (.scalar (.index (BitVec.ofInt 64 0)) :: .scalar (.index (n.signExtend 64)) ::
          .scalar (.index (BitVec.ofInt 64 1)) :: xs) := by
      have sub₂₅ := (sub₃.trans sub₄).trans sub₅
      rw [List.mapM_cons, sub₂₅ _ _ hlb.1, List.mapM_cons, sub₅ _ _ hub.1, List.mapM_cons, hone.1,
        (sub₂.trans sub₂₅).mapM values]
      rfl
    exact .lift ((create_runs seen (evalFor _ _) held'.length₁₂.symm).weaken fun E' ws vs _ hvs =>
      ⟨hvs.1, .of_held held' hvs.2.1 hvs.2.2⟩)

end Loops

section Branches

variable {eval : Option (List (FVal F))} {tys : List MlirTy} {body : Lower (List Value × Ctx)}

def ValuesLeave (tys : List MlirTy) (vals : List (FVal F)) (outs : List (MVal F))
    (_ : List (Write F)) : Prop := HeldAll tys outs vals

theorem branch_denoted (step : ∀ E', E.Sub E' → ∀ vals, eval = some vals →
      Lower.Runs W point E' body (ExpDone ctx Γ tys vals)) :
    Lower.Runs W point E (Lower.inBlock [] fun _ => body) fun E' p =>
      E' = E ∧ BlockRuns W E p.1 (BranchEnter point eval) (ValuesLeave tys) := by
  refine .inBlock _ _ fun vals at' args enter => ?_
  obtain ⟨rfl, rfl, result⟩ := enter
  refine ⟨rfl, fun args E₀ sub₀ _ _ => (step E₀ sub₀ vals result).weaken fun E' ws p _ hp => ?_⟩
  obtain ⟨outs, yields, left⟩ := hp.2.1.held
  exact ⟨outs, yields, left⟩

theorem scfIf_held {thenBlock elseBlock : Block} {thenEval elseEval : Option (List (FVal F))}
    (thenRuns : BlockRuns W E thenBlock (BranchEnter point thenEval) (ValuesLeave tys))
    (elseRuns : BlockRuns W E elseBlock (BranchEnter point elseEval) (ValuesLeave tys))
    {c : Bool} {outs : List (FVal F)}
    (eval : (match c with | true => thenEval | false => elseEval) = some outs) :
    ∃ ys, HeldAll tys ys outs ∧ ∀ operands resTys,
      evalOp W.machine W.call point .scfIf operands [.scalar (.ofBool c)] resTys
        (regionsOf W.machine W.call [thenBlock, elseBlock] E) = some (ys, []) := by
  cases c with
  | true =>
    obtain ⟨ys, ws, exec, held⟩ := thenRuns outs point [] ⟨rfl, rfl, eval⟩
    exact ⟨ys, held, fun _ _ => by simp [evalOp, regionsOf, Scalar.ofBool, exec]⟩
  | false =>
    obtain ⟨ys, ws, exec, held⟩ := elseRuns outs point [] ⟨rfl, rfl, eval⟩
    exact ⟨ys, held, fun _ _ => by simp [evalOp, regionsOf, Scalar.ofBool, exec]⟩

end Branches

mutual

theorem lowerStms_done (calls : CallsMatch W prog call) : ∀ (stms : List Stm) (Γ Γ' : Types)
    (ctx : Ctx) (ρ ρ' : Store F) (E : Env F), checkStms prog stms Γ = some Γ' →
    computeStms true W.machine.toFloatOps call stms ρ = some ρ' → Exact E ctx Γ ρ →
    Lower.Runs W point E (lowerStms cfg prog calleeOf stms ctx) (StmsDone ctx Γ Γ' ρ')
  | [], Γ, Γ', ctx, ρ, ρ', E, h, eval, exact' => by
    cases h
    rw [computeStms] at eval
    cases eval
    unfold lowerStms
    exact .pure ⟨rfl, exact', fun _ _ => rfl, .refl Γ⟩
  | stm :: rest, Γ, Γ', ctx, ρ, ρ', E, h, eval, exact' => by
    rw [computeStms] at eval
    obtain ⟨Γ₁, first, later⟩ := Option.bind_eq_some_iff.mp h
    obtain ⟨ρ₁, eval₁, eval₂⟩ := Option.bind_eq_some_iff.mp eval
    unfold lowerStms
    refine .bind (lowerStm_done calls stm Γ Γ₁ ctx ρ ρ₁ E first eval₁ exact') fun c E₁ sub₁ hc => ?_
    refine (lowerStms_done calls rest Γ₁ Γ' c ρ₁ ρ' E₁ later eval₂ hc.1).weaken
      fun E' ws d _ hd => ?_
    exact ⟨hd.1, hd.2.1, hc.2.1.trans (hd.2.2.1.mono hc.2.2), hc.2.2.trans hd.2.2.2⟩

theorem lowerStm_done (calls : CallsMatch W prog call) : ∀ (stm : Stm) (Γ Γ' : Types) (ctx : Ctx)
    (ρ ρ' : Store F) (E : Env F), checkStm prog stm Γ = some Γ' →
    computeStm true W.machine.toFloatOps call stm ρ = some ρ' → Exact E ctx Γ ρ →
    Lower.Runs W point E (lowerStm cfg prog calleeOf stm ctx) (StmsDone ctx Γ Γ' ρ')
  | .mk pat exp, Γ, Γ', ctx, ρ, ρ', E, h, eval, exact' => by
    rw [computeStm] at eval
    obtain ⟨tys, type, h⟩ := Option.bind_eq_some_iff.mp h
    obtain ⟨⟨declared, fresh⟩, bound⟩ := Option.ite_none_right_eq_some.mp h
    obtain ⟨vals, eval₁, values⟩ := Option.bind_eq_some_iff.mp eval
    exact lowerStm_of_done exact' fresh
      (lowerExp_done calls exp Γ tys ctx ρ vals E type eval₁ exact') declared bound values

theorem lowerBody_done (calls : CallsMatch W prog call) : ∀ (body : Body) (Γ : Types)
    (tys : List MlirTy) (ctx : Ctx) (ρ : Store F) (vals : List (FVal F)) (E : Env F),
    checkBody prog body Γ = some tys → computeBody true W.machine.toFloatOps call body ρ = some vals →
    Exact E ctx Γ ρ →
    Lower.Runs W point E (lowerBody cfg prog calleeOf body ctx) (ExpDone ctx Γ tys vals)
  | .mk stms result, Γ, tys, ctx, ρ, vals, E, h, eval, exact' => by
    rw [computeBody] at eval
    obtain ⟨Γ', first, last⟩ := Option.bind_eq_some_iff.mp h
    obtain ⟨ρ', eval₁, eval₂⟩ := Option.bind_eq_some_iff.mp eval
    unfold lowerBody
    refine .bind (lowerStms_done calls stms Γ Γ' ctx ρ ρ' E first eval₁ exact')
      fun c E₁ sub₁ hc => ?_
    refine .bind (.lift (lowerSubExps_denoted hc.1 last eval₂)) fun results E₂ sub₂ hresults => ?_
    exact .pure ⟨rfl, hresults, hc.2.1⟩

theorem lowerExp_done (calls : CallsMatch W prog call) : ∀ (exp : Exp) (Γ : Types)
    (tys : List MlirTy) (ctx : Ctx) (ρ : Store F) (vals : List (FVal F)) (E : Env F),
    checkExp prog exp Γ = some tys → computeExp true W.machine.toFloatOps call exp ρ = some vals →
    Exact E ctx Γ ρ →
    Lower.Runs W point E (lowerExp cfg prog calleeOf exp ctx) (ExpDone ctx Γ tys vals)
  | .basicOp op, Γ, tys, ctx, ρ, vals, E, h, eval, exact' => by
    rw [computeExp] at eval
    obtain ⟨ty, type, h⟩ := Option.bind_eq_some_iff.mp h
    obtain ⟨val, hval, eval⟩ := Option.bind_eq_some_iff.mp eval
    cases h
    cases eval
    unfold lowerExp
    refine .bind (.lift (lowerBasicOp_denotes cfg exact' type hval)) fun v E₁ sub₁ hv => ?_
    exact .pure ⟨rfl, .cons hv .nil, fun _ _ => rfl⟩
  | .subExp se, Γ, tys, ctx, ρ, vals, E, h, eval, exact' => by
    rw [computeExp] at eval
    obtain ⟨ty, type, h⟩ := Option.bind_eq_some_iff.mp h
    obtain ⟨val, hval, eval⟩ := Option.bind_eq_some_iff.mp eval
    cases h
    cases eval
    unfold lowerExp
    refine .bind (.lift (lowerSubExp_denotes exact' type hval)) fun v E₁ sub₁ hv => ?_
    exact .pure ⟨rfl, .cons hv .nil, fun _ _ => rfl⟩
  | .apply fname args retTypes, Γ, tys, ctx, ρ, vals, E, h, eval, exact' => by
    simp only [checkExp, Option.bind_eq_bind, Option.bind_eq_some_iff] at h
    obtain ⟨f, found, argTys, check, params, hparams, rets, hrets, tys', htys, h⟩ := h
    obtain ⟨⟨lowered, argCasts, retCasts⟩, eq⟩ := Option.ite_none_right_eq_some.mp h
    cases eq
    simp only [computeExp, Option.bind_eq_bind, Option.bind_eq_some_iff] at eval
    obtain ⟨ins, hins, outs, result, eval⟩ := eval
    obtain ⟨fits, eq⟩ := Option.ite_none_right_eq_some.mp eval
    cases eq
    unfold lowerExp
    refine .bind (lowerApply_denoted calls exact' found lowered check hparams hrets htys argCasts
      retCasts hins result fits) fun vs E₁ sub₁ hvs => ?_
    exact .pure ⟨rfl, hvs, fun _ _ => rfl⟩
  | .ite cond thenBody elseBody _, Γ, tys, ctx, ρ, vals, E, h, eval, exact' => by
    simp only [checkExp, Option.bind_eq_bind, Option.bind_eq_some_iff] at h
    obtain ⟨thenTys, hthen, elseTys, helse, h⟩ := h
    obtain ⟨⟨_, same⟩, eq⟩ := Option.ite_none_right_eq_some.mp h
    subst same
    cases eq
    rw [computeExp] at eval
    obtain ⟨b, hb, eval⟩ := Option.bind_eq_some_iff.mp eval
    obtain ⟨b, rfl⟩ : ∃ b', b = .bool b' := by
      split at eval
      · exact ⟨_, rfl⟩
      · exact ⟨_, rfl⟩
      · cases eval
    unfold lowerExp
    refine .bind (.lift (lowerPrim_runs exact'.rep hb)) fun v E₁ sub₁ hv => ?_
    refine .bind ((branch_denoted fun E' sub vals h => lowerBody_done calls thenBody Γ _ ctx ρ vals E'
      hthen h (exact'.mono (sub₁.trans sub))).returns (Lower.inBlock_yields fun _ =>
        lowerBody_typed thenBody Γ _ ctx hthen exact'.typed)) fun p E₂ sub₂ hp => ?_
    obtain ⟨thenBlock, c₁⟩ := p
    obtain ⟨⟨rfl, thenRuns⟩, thenTyped⟩ := hp
    have exact₁ := (exact'.mono sub₁).kept thenTyped.2
    -- The names the first branch binds are still bound in the second.
    refine .bind ((branch_denoted fun E' sub vals h => lowerBody_done calls elseBody Γ _ c₁ ρ vals E'
      helse h (exact₁.mono sub)).returns (Lower.inBlock_yields fun _ =>
        lowerBody_typed elseBody Γ _ c₁ helse exact₁.typed)) fun q E₃ sub₃ hq => ?_
    obtain ⟨elseBlock, c₂⟩ := q
    obtain ⟨⟨rfl, elseRuns⟩, elseTyped⟩ := hq
    obtain ⟨ys, held, evalIf⟩ := scfIf_held thenRuns elseRuns (c := b) (by
      cases b <;> exact eval)
    have seen : [v].mapM E₃ = some [.scalar (.ofBool b)] := by simp [hv.1, PVal.lower]
    have length : ys.length = (thenBlock.yield.map Value.ty).length := by
      rw [thenTyped.1, held.length₁₂]
    refine .bind (.lift (create_runs seen (evalIf _ _) length)) fun vs E₄ sub₄ hvs => ?_
    exact .pure ⟨rfl, .of_held held hvs.1 (hvs.2.trans thenTyped.1), thenTyped.2.trans elseTyped.2⟩
  | .loop merge form body, Γ, tys, ctx, ρ, vals, E, h, eval, exact' => by
    cases form with
    | whileLoop c => cases h
    | forLoop i t bound =>
      simp only [checkExp, Option.bind_eq_bind, Option.bind_eq_some_iff] at h
      obtain ⟨srcs, hsrcs, dsts, hdsts, inner, hinner, results, hresults, h⟩ := h
      obtain ⟨⟨_, _, initCasts, casts⟩, eq⟩ := Option.ite_none_right_eq_some.mp h
      cases eq
      simp only [computeExp, Option.bind_eq_bind, Option.bind_eq_some_iff] at eval
      obtain ⟨inits, hinits, n, ⟨p, hp, hn⟩, eval⟩ := eval
      rw [PVal.asInt_eq_some] at hn
      subst hn
      obtain ⟨fits, eval⟩ := Option.ite_none_right_eq_some.mp eval
      have once : ∀ ρ' outs, (do
          let outs ← computeBody true W.machine.toFloatOps call body ρ'
          if allFit (merge.map fun m => m.1.ty) outs then return outs else none) = some outs →
          computeBody true W.machine.toFloatOps call body ρ' = some outs ∧
            List.Forall₃ Castable outs results tys := by
        intro ρ' outs eq
        obtain ⟨outs', result, eq⟩ := Option.bind_eq_some_iff.mp eq
        obtain ⟨fits', eq⟩ := Option.ite_none_right_eq_some.mp eq
        cases eq
        exact ⟨result, castable_all fits' hdsts casts⟩
      unfold lowerExp
      refine .bind (lowerLoop_denoted exact' hdsts hsrcs hinner (fun E' c ρ' outs bound eq =>
        lowerBody_done calls body inner results c ρ' outs E' hresults (once ρ' outs eq).1 bound)
        (fun ρ' outs eq => (once ρ' outs eq).2) hinits (castable_all fits hdsts initCasts) hp eval)
        fun vs E₁ sub₁ hvs => ?_
      exact .pure ⟨rfl, hvs, fun _ _ => rfl⟩
  | .hostOp op, Γ, tys, ctx, ρ, vals, E, h, eval, exact' => by
    unfold lowerExp lowerHostOp
    cases op with
    | segOp op =>
      rw [checkExp] at h
      rw [computeExp] at eval
      refine .bind (lowerSegOp_denoted cfg calls.scalars exact' h eval) fun vs E₁ sub₁ hvs => ?_
      exact .pure ⟨rfl, hvs, fun _ _ => rfl⟩
    | sizeOp => cases h
    | gpuBody => cases h

end

end Bodies

end FutharkMlir
