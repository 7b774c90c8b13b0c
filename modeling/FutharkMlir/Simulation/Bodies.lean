import FutharkMlir.Simulation.Accepts
import FutharkMlir.Simulation.Scalars

namespace FutharkMlir

variable {F : Type}

def PVal.HasType (p : PVal F) (t : PrimType) : Prop := lowerPrimType t = .ok p.elemTy

def lowerAll (ps : List (PVal F)) : List (MVal F) := ps.map fun p => .scalar p.lower

structure Computes (E : Env F) (vs : List Value) (ps : List (PVal F)) (ts : List PrimType) :
    Prop where
  values : vs.mapM E = some (lowerAll ps)
  types : List.Forall₂ PVal.HasType ps ts
  static : List.Forall₂ HasType vs ts

namespace Computes

variable {E E' : Env F} {vs : List Value} {ps : List (PVal F)} {ts : List PrimType}

theorem mono (h : Computes E vs ps ts) (sub : E.Sub E') : Computes E' vs ps ts :=
  ⟨sub.mapM h.values, h.types, h.static⟩

theorem append (h : Computes E vs ps ts) {vs' : List Value} {ps' : List (PVal F)}
    {ts' : List PrimType} (h' : Computes E vs' ps' ts') :
    Computes E (vs ++ vs') (ps ++ ps') (ts ++ ts') := by
  refine ⟨?_, List.rel_append h.types h'.types, List.rel_append h.static h'.static⟩
  rw [List.mapM_append, h.values, h'.values, lowerAll, lowerAll, lowerAll, List.map_append]
  rfl

theorem represents (h : Computes E vs ps ts) :
    List.Forall₂ (Represents E) vs (ps.map .prim) := by
  obtain ⟨values, types, static⟩ := h
  rw [List.mapM_eq_some, lowerAll, List.forall₂_map_right_iff] at values
  rw [List.forall₂_map_right_iff]
  induction static generalizing ps with
  | nil =>
    cases types
    exact .nil
  | cons hv _ ih =>
    cases values with
    | cons hx hxs =>
      cases types with
      | cons hp hps => exact .cons ⟨hx, hv.unique hp⟩ (ih hxs hps)

end Computes

/-- What stands for a value and has a scalar type holds a scalar of the type. -/
theorem Represents.prim {E : Env F} {v : Value} {val : FVal F} {t : PrimType}
    (h : Represents E v val) (type : HasType v t) : ∃ p, val = .prim p ∧ p.HasType t ∧
      E v = some (.scalar p.lower) := by
  have scalar : ∃ e, lowerPrimType t = .ok e ∧ v.ty = .scalar e := by
    cases t with
    | unit => cases type
    | int t => exact ⟨_, rfl, type.unique rfl⟩
    | float t => exact ⟨_, rfl, type.unique rfl⟩
    | bool => exact ⟨_, rfl, type.unique rfl⟩
  obtain ⟨e, lowered, ty⟩ := scalar
  cases val with
  | prim p =>
    refine ⟨p, rfl, ?_, h.1⟩
    rw [PVal.HasType, lowered, ← MlirTy.scalar.inj (ty.symm.trans h.2)]
  | array a =>
    obtain ⟨_, _, _, _, tensor, _⟩ := h
    cases ty.symm.trans tensor

theorem computes_of {E : Env F} {vs : List Value} {vals : List (FVal F)} {ts : List PrimType}
    (h : List.Forall₂ (Represents E) vs vals) (types : List.Forall₂ HasType vs ts) :
    ∃ ps, vals = ps.map .prim ∧ Computes E vs ps ts := by
  induction h generalizing ts with
  | nil =>
    cases types
    exact ⟨[], rfl, rfl, .nil, .nil⟩
  | cons hv _ ih =>
    cases types with
    | cons ht hts =>
      obtain ⟨p, rfl, hp, value⟩ := hv.prim ht
      obtain ⟨ps, rfl, values, types, static⟩ := ih hts
      refine ⟨p :: ps, rfl, ?_, .cons hp types, .cons ht static⟩
      rw [List.mapM_cons, value, values]
      rfl

section Static

variable {α : Type} {W : World F} {point : List Nat} {E : Env F}

/-- What is known of the result of every run is known of this one. -/
theorem Emit.Effects.and {m : Emit α} {Q : Env F → α → Prop} {P : α → Prop}
    (hm : Emit.Runs W point E m Q) (h : m.Accepts P) :
    Emit.Runs W point E m fun E' a => Q E' a ∧ P a := by
  intro ip a ip' run below
  obtain ⟨new, E', ws, ops, exec, sub, below', none, holds⟩ := hm ip a ip' run below
  obtain ⟨c, ip'', run', static⟩ := h ip
  cases run.symm.trans run'
  exact ⟨new, E', ws, ops, exec, sub, below', none, holds, static⟩

theorem Lower.Effects.and {m : Lower α} {Q : Env F → α → Prop} {P : α → Prop}
    (hm : Lower.Runs W point E m Q) (h : m.Accepts P) :
    Lower.Runs W point E m fun E' a => Q E' a ∧ P a := by
  intro b a b' run below
  obtain ⟨new, E', ws, ops, exec, sub, below', none, holds⟩ := hm b a b' run below
  exact ⟨new, E', ws, ops, exec, sub, below', none, holds, h.of_run run⟩

end Static

/-- The functions of the module compute what the functions of the program do, on scalars. -/
def CallsAgree (W : World F) (prog : Prog)
    (call : String → List (FVal F) → Option (List (FVal F))) : Prop :=
  ∀ fname sig, scalarSig prog fname = some sig → ∀ (ps : List (PVal F)) outs,
    List.Forall₂ PVal.HasType ps sig.1 → call fname (ps.map .prim) = some outs →
    ∃ qs : List (PVal F), outs = qs.map .prim ∧ List.Forall₂ PVal.HasType qs sig.2 ∧
      W.call fname (lowerAll ps) = some (lowerAll qs)

variable {W : World F} {point : List Nat} {E : Env F} {cfg : Config} {prog : Prog}
  {Γ Γ' : Types} {ctx : Ctx} {ρ ρ' : Store F}
  {call : String → List (FVal F) → Option (List (FVal F))}

theorem lowerAll_length (ps : List (PVal F)) : (lowerAll ps).length = ps.length :=
  List.length_map _

theorem calleeOf_runs {f : FunDef} (lowered : f.lowered = true) {sig : FuncSig}
    (h : funcSig f = .ok sig) :
    Lower.Runs W point E (calleeOf f) fun E' c => E' = E ∧ c = .func sig := by
  intro b c b' run below
  obtain ⟨rfl, _⟩ := calleeOf_ok run
  refine ⟨[], E, [], by simp, rfl, .refl _, below, rfl, rfl, ?_⟩
  exact (calleeOf_accepts lowered h).of_run run

theorem lowerCallArgs_runs (typed : ctx.Related HasTy Γ) (rep : ctx.Represents E ρ)
    {args : List SubExp} {ts : List PrimType} {tys : List MlirTy} {vals : List (FVal F)}
    (types : args.mapM (typeSubExp Γ) = some ts) (lowers : LowersTo tys ts)
    (eval : args.mapM (evalSubExp W.machine.toFloatOps ρ) = some vals) :
    Emit.Runs W point E (lowerCallArgs ctx (args.zip tys)) fun E' vs =>
      List.Forall₂ (Represents E') vs vals := by
  rw [List.mapM_eq_some] at types eval
  refine Emit.Effects.mapM (fun _ _ _ _ sub h => h.mono sub) ?_
  induction types generalizing tys vals with
  | nil =>
    cases eval
    cases lowers
    exact .nil
  | cons hx _ ih =>
    cases eval with
    | cons he hes =>
      cases lowers with
      | cons hy hys =>
        refine .cons (fun E' sub => ?_) (ih hys hes)
        refine .bind ((lowerSubExp_runs (rep.mono sub) he).and (lowerSubExp_accepts typed hx))
          fun v E₁ _ hv => ?_
        rw [castToType_accepts (Except.ok.inj (hv.2.symm.trans hy))]
        exact .pure ⟨rfl, hv.1⟩

theorem lowerApply_runs (calls : CallsAgree W prog call) (typed : ctx.Related HasTy Γ)
    (rep : ctx.Represents E ρ) {fname : String} {sig : List PrimType × List PrimType}
    (h : scalarSig prog fname = some sig) {args : List SubExp}
    (types : args.mapM (typeSubExp Γ) = some sig.1) {vals outs : List (FVal F)}
    (eval : args.mapM (evalSubExp W.machine.toFloatOps ρ) = some vals)
    (result : call fname vals = some outs) :
    Lower.Runs W point E (lowerApply cfg prog calleeOf fname args (sig.2.map .prim) ctx)
      fun E' vs => List.Forall₂ (Represents E') vs outs := by
  obtain ⟨f, func, found, lowered, hsig, lowersArgs, lowersRets⟩ := scalarSig_lowers h
  have name : func.name = fname := by
    have named : f.name = fname := by simpa using List.find?_some found
    rw [funcSig_name hsig, named]
  unfold lowerApply
  rw [found]
  refine .bind (.liftExcept _) fun retTys E₁ sub₁ hret => ?_
  obtain ⟨rfl, hret⟩ := hret
  have results : (sig.2.map Ty.prim).mapM lowerTy = .ok func.retTypes := by
    rw [Except.mapM_eq_ok, List.forall₂_map_left_iff]
    exact lowersRets.flip
  cases results.symm.trans hret
  refine .bind (calleeOf_runs lowered hsig) fun callee E₂ sub₂ hcallee => ?_
  obtain ⟨rfl, rfl⟩ := hcallee
  refine .bind (P := fun E' vs => List.Forall₂ (Represents E') vs outs ∧
    vs.map Value.ty = func.retTypes) (.lift ?_) fun returns E₃ sub₃ hreturns => ?_
  · refine .bind (.liftExcept _) fun pairs E₄ sub₄ hpairs => ?_
    obtain ⟨rfl, hpairs⟩ := hpairs
    rw [zipEqual_eq cfg hpairs]
    refine .bind ((lowerCallArgs_runs typed rep types lowersArgs eval).and
      (lowerCallArgs_accepts typed types lowersArgs)) fun vs E₅ sub₅ hvs => ?_
    obtain ⟨ps, rfl, computes⟩ := computes_of hvs.1 hvs.2
    obtain ⟨qs, rfl, retTypes, called⟩ := calls fname sig h ps outs computes.types result
    have length : (lowerAll qs).length = func.retTypes.length := by
      rw [lowerAll_length, retTypes.length_eq, lowersRets.length_eq]
    refine (create_runs computes.values ?_ length).weaken fun E' ws us sub hus =>
      ⟨hus.1, Computes.represents ⟨hus.2.1, retTypes, ?_⟩, hus.2.2⟩
    · simp [evalOp, regionsOf, name, called]
    · rw [HasType.all, hus.2.2]
      exact lowersRets
  · refine .bind (.liftExcept _) fun pairs E₄ sub₄ hpairs => ?_
    obtain ⟨rfl, hpairs⟩ := hpairs
    rw [zipEqual_eq cfg hpairs, castAll_same hreturns.2]
    exact .lift (.pure ⟨rfl, hreturns.1⟩)

def Covers (Γ : Types) (ρ : Store F) : Prop := ∀ x, ρ x ≠ none → Γ x ≠ none

/-- The environment stands for the store and keeps the types. -/
structure Stands (E : Env F) (ctx : Ctx) (Γ : Types) (ρ : Store F) : Prop where
  typed : ctx.Related HasTy Γ
  rep : ctx.Represents E ρ
  covers : Covers Γ ρ

namespace Stands

theorem mono {E' : Env F} (h : Stands E ctx Γ ρ) (sub : E.Sub E') : Stands E' ctx Γ ρ :=
  ⟨h.typed, h.rep.mono sub, h.covers⟩

theorem kept {ctx' : Ctx} (h : Stands E ctx Γ ρ) (kept : Kept Γ ctx ctx') :
    Stands E ctx' Γ ρ := by
  refine ⟨h.typed.congr kept, fun x val hx => ?_, h.covers⟩
  rw [kept x (h.covers x (by rw [hx]; exact Option.some_ne_none val))]
  exact h.rep x val hx

theorem bind (h : Stands E ctx Γ ρ) {names : List VName} {vs : List Value} {ps : List (PVal F)}
    {ts : List PrimType} (computes : Computes E vs ps ts)
    (types : Γ.bind names (ts.map .prim) = some Γ')
    (values : ρ.bind names (ps.map .prim) = some ρ') :
    Stands E (ctx.insertAll (names.zip vs)) Γ' ρ' := by
  refine ⟨h.typed.insertAll types ?_, ?_, Binding.bind_covers h.covers values types⟩
  · rw [List.forall₂_map_right_iff]
    exact computes.static
  · have rel : ctx.Related (Represents E) ρ := h.rep
    exact rel.insertAll values computes.represents

end Stands

abbrev StmsRun (ctx : Ctx) (Γ Γ' : Types) (ρ' : Store F) (E : Env F) (c : Ctx) : Prop :=
  Stands E c Γ' ρ' ∧ Kept Γ ctx c

abbrev ExpRun (ctx : Ctx) (Γ : Types) (ts : List PrimType) (vals : List (FVal F)) (E : Env F)
    (p : List Value × Ctx) : Prop :=
  (∃ ps, vals = ps.map .prim ∧ Computes E p.1 ps ts) ∧ Kept Γ ctx p.2

theorem lowerStm_of_runs {exp : Exp} {pat : List PatElem} {ts : List PrimType}
    {vals : List (FVal F)} (stands : Stands E ctx Γ ρ)
    (fresh : FreshNames Γ (pat.map PatElem.name))
    (h : Lower.Runs W point E (lowerExp cfg prog calleeOf exp ctx) (ExpRun ctx Γ ts vals))
    (types : pat.map PatElem.ty = ts.map .prim)
    (bound : Γ.bind (pat.map PatElem.name) (pat.map PatElem.ty) = some Γ')
    (values : ρ.bind (pat.map PatElem.name) vals = some ρ') :
    Lower.Runs W point E (lowerStm cfg prog calleeOf (.mk pat exp) ctx)
      (StmsRun ctx Γ Γ' ρ') := by
  unfold lowerStm
  refine .bind (.recording h) fun p E₁ sub₁ hp => ?_
  obtain ⟨vs, c⟩ := p
  obtain ⟨⟨ps, rfl, computes⟩, kept⟩ := hp
  refine .bind (.liftExcept _) fun pairs E₂ sub₂ hpairs => ?_
  obtain ⟨rfl, hpairs⟩ := hpairs
  rw [zipEqual_eq cfg hpairs, zip_map_fst]
  rw [types] at bound
  exact .pure ⟨rfl, ((stands.mono sub₁).kept kept).bind computes bound values,
    kept.trans (.insertAll fresh c)⟩

section Loops

theorem loopInits_runs (typed : ctx.Related HasTy Γ) (rep : ctx.Represents E ρ)
    {merge : List (Param × SubExp)} {ts : List PrimType} {vals : List (FVal F)}
    (types : (merge.map Prod.snd).mapM (typeSubExp Γ) = some ts)
    (params : (merge.map fun m => m.1.ty) = ts.map .prim)
    (eval : (merge.map Prod.snd).mapM (evalSubExp W.machine.toFloatOps ρ) = some vals) :
    Emit.Runs W point E (loopInits merge ctx) fun E' inits =>
      List.Forall₂ (Represents E') (inits.map Prod.snd) vals := by
  have each := merge_types types params
  rw [List.mapM_eq_some, List.forall₂_map_left_iff] at eval
  have related : List.Forall₂ (fun (m : Param × SubExp) val => ∀ E', E.Sub E' →
      Emit.Runs W point E' (do
        let ty ← lowerTy m.1.ty
        let v ← lowerSubExp ctx m.2
        let init ← castToType v ty
        return (ty, init)) fun E'' q => Represents E'' q.2 val) merge vals := by
    clear types params
    induction each generalizing vals with
    | nil =>
      cases eval
      exact .nil
    | @cons m t _ _ hx _ ih =>
      cases eval with
      | cons he hes =>
        refine .cons (fun E' sub => ?_) (ih hes)
        refine .bind (.liftExcept _) fun ty E₁ sub₁ hty => ?_
        obtain ⟨rfl, hty⟩ := hty
        rw [hx.2] at hty
        refine .bind ((lowerSubExp_runs (rep.mono sub) he).and (lowerSubExp_accepts typed hx.1))
          fun v E₂ sub₂ hv => ?_
        rw [castToType_accepts (Except.ok.inj (hv.2.symm.trans hty))]
        exact .pure ⟨rfl, hv.1⟩
  refine (Emit.Effects.mapM (fun _ _ _ _ sub h => h.mono sub) related).weaken
    fun E' ws inits _ h => ⟨h.1, ?_⟩
  exact List.forall₂_map_left_iff.mpr h.2

theorem tripCount_one (n : Int) : tripCount 0 n 1 = n.toNat := by
  rw [tripCount]
  congr 1
  omega

/-- A loop from zero in steps of one runs its body on the counts in order. -/
theorem runFor_counted {γ : Type} (body : Region F) {R : γ → List (MVal F) → Prop}
    {f : γ → Nat → Option γ} {n : BitVec 64} {inits : List (MVal F)} {c c' : γ}
    (step : ∀ k < n.toInt.toNat, ∀ c d c', R c d → f c k = some c' →
      ∃ d' ws, body.run point (MVal.ofIndex k :: d) = some (d', ws) ∧
        d'.length = inits.length ∧ R c' d')
    (start : R c inits) (h : (List.range n.toInt.toNat).foldlM f c = some c') :
    ∃ d', runFor body point (.scalar (.index (BitVec.ofInt 64 0)) :: .scalar (.index n) ::
      .scalar (.index (BitVec.ofInt 64 1)) :: inits) = some d' ∧ R c' d' := by
  have zero : (BitVec.ofInt 64 0).toInt = 0 := by decide
  have one : (BitVec.ofInt 64 1).toInt = 1 := by decide
  rw [runFor, zero, one, if_neg (by decide), tripCount_one]
  refine List.foldlM_related (fun k hk c d c' rel eq => ?_) start h
  obtain ⟨d', ws, run, length, rel'⟩ := step k (List.mem_range.mp hk) c d c' rel eq
  refine ⟨d', ?_, rel'⟩
  have iv : BitVec.ofInt 64 (0 + (k : Int) * 1) = BitVec.ofNat 64 k := by
    rw [Int.zero_add, Int.mul_one, BitVec.ofInt_natCast]
  rw [iv]
  have run' : body.run point (.scalar (.index (BitVec.ofNat 64 k)) :: d) = some (d', ws) := run
  simp [run', length]

theorem counter_runs {iv : Value} {k : Nat} {t : IntType} (value : E iv = some (.ofIndex k)) :
    Emit.Runs W point E (indexCast iv (.int t.getWidth)) fun E' v =>
      Represents E' v (.prim (.int t (BitVec.ofNat t.getWidth k))) := by
  have le : t.getWidth ≤ 64 := by cases t <;> decide
  have cast : (BitVec.ofNat 64 k).signExtend t.getWidth = BitVec.ofNat t.getWidth k := by
    rw [BitVec.signExtend_eq_setWidth_of_le _ le, BitVec.setWidth_ofNat_of_le le]
  have seen : [iv].mapM E = some [.ofIndex k] := by simp [value]
  refine (create1_runs (x := .scalar (.int t.getWidth (BitVec.ofNat t.getWidth k))) seen ?_).weaken
    fun E' ws v _ hv => hv
  simp [evalOp, evalTensorOp, evalScalarOp, MVal.toScalar, MVal.ofIndex, castIndex, cast]

variable {merge : List (Param × SubExp)} {ts : List PrimType} {i : VName} {t : IntType}
  {inner : Types} {body : Ctx → Lower (List Value × Ctx)}
  {bodyEval : Store F → Option (List (FVal F))}

/-- One iteration: the counter and the carried values are bound, the body is run, and its
results are carried on as they are. -/
theorem loopBody_runs (stands : Stands E ctx Γ ρ)
    (hinner : (Γ.insert i (.prim (.int t))).bind (mergeNames merge) (ts.map .prim) = some inner)
    (step : ∀ E' c ρ' outs, Stands E' c inner ρ' → bodyEval ρ' = some outs →
      Lower.Runs W point E' (body c) (ExpRun c inner ts outs))
    {mergeTypes : List MlirTy} (lowers : LowersTo mergeTypes ts) {k : Nat} {ps : List (PVal F)}
    (hps : List.Forall₂ PVal.HasType ps ts) {outs : List (FVal F)} {ρ' : Store F}
    (values : (ρ.insert i (.prim (.int t (BitVec.ofNat t.getWidth k)))).bind (mergeNames merge)
      (ps.map .prim) = some ρ') (eval : bodyEval ρ' = some outs) {args : List Value}
    (hargs : args.map Value.ty = .index :: mergeTypes)
    (hvals : args.mapM E = some (.ofIndex k :: lowerAll ps)) :
    Lower.Runs W point E (do
      let iv ← indexed args 0
      let counter ← indexCast iv (.int t.getWidth)
      let pairs ← zipEqual cfg merge (args.drop 1)
      let local' := (ctx.insert i counter).insertAll (pairs.map fun p => (p.1.1.name, p.2))
      let (results, _) ← body local'
      let typedResults ← zipEqual cfg results mergeTypes
      let yield ← castAll typedResults
      return (yield, ())) fun E' p =>
        ∃ qs : List (PVal F), outs = qs.map .prim ∧ p.1.mapM E' = some (lowerAll qs) ∧
          List.Forall₂ PVal.HasType qs ts := by
  cases args with
  | nil => cases hargs
  | cons iv rest =>
    obtain ⟨_, restTypes⟩ := List.cons.inj hargs
    simp only [List.mapM_cons, Option.bind_eq_bind, Option.bind_eq_some_iff, Option.pure_def,
      Option.some.injEq, List.cons.injEq] at hvals
    obtain ⟨x, hx, xs, hxs, rfl, rfl⟩ := hvals
    refine .bind (.liftExcept _) fun iv' E₁ sub₁ hiv => ?_
    obtain ⟨rfl, hiv⟩ := hiv
    cases hiv
    refine .bind (.lift (counter_runs hx)) fun counter E₂ sub₂ hcounter => ?_
    refine .bind (.liftExcept _) fun pairs E₃ sub₃ hpairs => ?_
    obtain ⟨rfl, hpairs⟩ := hpairs
    rw [zipEqual_eq cfg hpairs, List.drop_one, List.tail_cons,
      zip_map_fst (f := fun m : Param × SubExp => m.1.name)]
    have computes : Computes E₃ (counter :: rest)
        (.int t (BitVec.ofNat t.getWidth k) :: ps) (.int t :: ts) := by
      refine ⟨?_, .cons rfl hps, .cons (hasType_of rfl hcounter.2) ?_⟩
      · rw [List.mapM_cons, hcounter.1, sub₂.mapM hxs]
        rfl
      · rw [HasType.all, restTypes]
        exact lowers
    have types : Γ.bind (i :: mergeNames merge) ((PrimType.int t :: ts).map .prim) =
      some inner := hinner
    have bound : Stands E₃ ((ctx.insert i counter).insertAll ((mergeNames merge).zip rest))
      inner ρ' := (stands.mono sub₂).bind computes types values
    refine .bind (step E₃ _ ρ' outs bound eval) fun p E₄ sub₄ hp => ?_
    obtain ⟨results, c⟩ := p
    obtain ⟨⟨qs, rfl, done⟩, _⟩ := hp
    refine .bind (.liftExcept _) fun typedResults E₅ sub₅ htyped => ?_
    obtain ⟨rfl, htyped⟩ := htyped
    rw [zipEqual_eq cfg htyped, castAll_same ((HasType.all.mp done.static).unique lowers)]
    refine .bind (P := fun E' yield => E' = E₅ ∧ yield = results)
      (.lift (.pure ⟨rfl, rfl, rfl⟩)) fun yield E₆ sub₆ hyield => ?_
    obtain ⟨rfl, rfl⟩ := hyield
    exact .pure ⟨rfl, qs, rfl, done.values, done.types⟩

/-- What is known when the body of the loop is entered: the count, the carried values and
what the body makes of them. -/
def LoopEnter (point : List Nat) (merge : List (Param × SubExp)) (i : VName) (t : IntType)
    (ts : List PrimType) (bodyEval : Store F → Option (List (FVal F))) (ρ : Store F)
    (g : Nat × List (PVal F) × List (FVal F)) (at' : List Nat) (vals : List (MVal F)) : Prop :=
  at' = point ∧ vals = .ofIndex g.1 :: lowerAll g.2.1 ∧ List.Forall₂ PVal.HasType g.2.1 ts ∧
    ∃ ρ', (ρ.insert i (.prim (.int t (BitVec.ofNat t.getWidth g.1)))).bind (mergeNames merge)
      (g.2.1.map .prim) = some ρ' ∧ bodyEval ρ' = some g.2.2

def LoopLeave (ts : List PrimType) (g : Nat × List (PVal F) × List (FVal F))
    (outs : List (MVal F)) (_ : List (Write F)) : Prop :=
  ∃ qs : List (PVal F), g.2.2 = qs.map .prim ∧ outs = lowerAll qs ∧
    List.Forall₂ PVal.HasType qs ts

theorem runFor_runs {block : Block} {n : BitVec t.getWidth} {ps : List (PVal F)}
    {outs : List (FVal F)} (hps : List.Forall₂ PVal.HasType ps ts)
    (runs : BlockRuns W E block (LoopEnter point merge i t ts bodyEval ρ) (LoopLeave ts))
    (eval : evalFor i t (mergeNames merge) bodyEval ρ n.toInt (ps.map .prim) = some outs) :
    ∃ qs : List (PVal F), outs = qs.map .prim ∧ List.Forall₂ PVal.HasType qs ts ∧
      ∀ operands resTys, evalOp W.machine W.call point .scfFor operands
        (.scalar (.index (BitVec.ofInt 64 0)) :: .scalar (.index (n.signExtend 64)) ::
          .scalar (.index (BitVec.ofInt 64 1)) :: lowerAll ps) resTys
        (regionsOf W.machine W.call [block] E) = some (lowerAll qs, []) := by
  have le : t.getWidth ≤ 64 := by cases t <;> decide
  have toInt : (n.signExtend 64).toInt = n.toInt := BitVec.toInt_signExtend_of_le le
  let R : List (FVal F) → List (MVal F) → Prop := fun c d =>
    ∃ qs : List (PVal F), c = qs.map .prim ∧ d = lowerAll qs ∧ List.Forall₂ PVal.HasType qs ts
  let body : Region F := ⟨block.args, fun at' vals => execBlock W.machine W.call block at' E vals⟩
  have step : ∀ k < (n.signExtend 64).toInt.toNat, ∀ c d c', R c d →
      (do
        let counter := FVal.prim (.int t (BitVec.ofNat t.getWidth k))
        let ρ' ← (ρ.insert i counter).bind (mergeNames merge) c
        bodyEval ρ') = some c' → ∃ d' ws, body.run point (MVal.ofIndex k :: d) = some (d', ws) ∧
        d'.length = (lowerAll ps).length ∧ R c' d' := by
    intro k _ c d c' rel eq
    obtain ⟨qs, rfl, rfl, hqs⟩ := rel
    obtain ⟨ρ', bound, result⟩ := Option.bind_eq_some_iff.mp eq
    obtain ⟨outs, ws, exec, us, rfl, rfl, hus⟩ :=
      runs (k, qs, c') point _ ⟨rfl, rfl, hqs, ρ', bound, result⟩
    refine ⟨lowerAll us, ws, exec, ?_, us, rfl, rfl, hus⟩
    rw [lowerAll_length, lowerAll_length, hus.length_eq, hps.length_eq]
  rw [evalFor, ← toInt] at eval
  obtain ⟨d, run, qs, rfl, rfl, hqs⟩ := runFor_counted body step ⟨ps, rfl, rfl, hps⟩ eval
  refine ⟨qs, rfl, hqs, fun operands resTys => ?_⟩
  simp only [evalOp, regionsOf]
  rw [run]
  rfl

/-- The loop computes what its iterations do, one after the other. -/
theorem lowerLoop_runs (stands : Stands E ctx Γ ρ) {bound : SubExp}
    (types : (merge.map Prod.snd).mapM (typeSubExp Γ) = some ts)
    (params : (merge.map fun m => m.1.ty) = ts.map .prim)
    (hinner : (Γ.insert i (.prim (.int t))).bind (mergeNames merge) (ts.map .prim) = some inner)
    (step : ∀ E' c ρ' outs, Stands E' c inner ρ' → bodyEval ρ' = some outs →
      Lower.Runs W point E' (body c) (ExpRun c inner ts outs))
    {inits outs : List (FVal F)} {n : BitVec t.getWidth}
    (hinits : (merge.map Prod.snd).mapM (evalSubExp W.machine.toFloatOps ρ) = some inits)
    (hn : evalPrim W.machine.toFloatOps ρ bound = some (.int t n))
    (eval : evalFor i t (mergeNames merge) bodyEval ρ n.toInt inits = some outs) :
    Lower.Runs W point E (lowerLoop cfg merge (.forLoop i t bound) body ctx) fun E' vs =>
      ∃ qs : List (PVal F), outs = qs.map .prim ∧ Computes E' vs qs ts := by
  unfold lowerLoop
  refine .bind (.lift ((loopInits_runs stands.typed stands.rep types params hinits).and
    (loopInits_accepts stands.typed types params))) fun typed E₁ sub₁ htyped => ?_
  obtain ⟨hvals, lowers, same⟩ := htyped
  obtain ⟨ps, rfl, computes⟩ := computes_of hvals (HasType.all.mpr (same ▸ lowers))
  refine .bind (.lift createConstant_runs) fun lb E₂ sub₂ hlb => ?_
  have stands₂ := (stands.mono sub₁).mono sub₂
  refine .bind (.lift (lowerPrim_runs stands₂.rep hn)) fun v E₃ sub₃ hv => ?_
  refine .bind (.lift (indexCast_int_runs hv)) fun ub E₄ sub₄ hub => ?_
  refine .bind (.lift createConstant_runs) fun one E₅ sub₅ hone => ?_
  have stands₅ := ((stands₂.mono sub₃).mono sub₄).mono sub₅
  refine .bind (.inBlock (LoopEnter point merge i t ts bodyEval ρ) (LoopLeave ts)
    fun g at' vals enter => ?_) fun p E₆ sub₆ hp => ?_
  · obtain ⟨rfl, rfl, hps, ρ', bound, result⟩ := enter
    refine ⟨?_, fun args E₀ sub₀ hargs seen => ?_⟩
    · rw [List.length_cons, List.length_cons, lowerAll_length, hps.length_eq, ← same,
        lowers.length_eq]
    · rw [← same] at hargs
      refine (loopBody_runs (stands₅.mono sub₀) hinner step lowers hps bound result hargs seen).weaken
        fun E' ws r _ hr => ?_
      obtain ⟨rfl, qs, outs, yields, types⟩ := hr
      exact ⟨lowerAll qs, yields, qs, outs, rfl, types⟩
  · obtain ⟨block, u⟩ := p
    obtain ⟨rfl, runs⟩ := hp
    obtain ⟨qs, rfl, hqs, evalFor⟩ := runFor_runs computes.types runs eval
    have seen : (lb :: ub :: one :: typed.map Prod.snd).mapM E₆ =
        some (.scalar (.index (BitVec.ofInt 64 0)) :: .scalar (.index (n.signExtend 64)) ::
          .scalar (.index (BitVec.ofInt 64 1)) :: lowerAll ps) := by
      have sub₂₅ := (sub₃.trans sub₄).trans sub₅
      rw [List.mapM_cons, sub₂₅ _ _ hlb.1, List.mapM_cons, sub₅ _ _ hub.1, List.mapM_cons, hone.1,
        (sub₂.trans sub₂₅).mapM computes.values]
      rfl
    refine .lift ((create_runs seen (evalFor _ _) ?_).weaken fun E' ws vs _ hvs =>
      ⟨hvs.1, qs, rfl, hvs.2.1, hqs, ?_⟩)
    · rw [lowerAll_length, hqs.length_eq, ← lowers.length_eq, same]
    · rw [HasType.all, hvs.2.2, ← same]
      exact lowers

end Loops

theorem BasicOp.widens_of_type {op : BasicOp} {t : PrimType} (h : typeBasicOp Γ op = some t) :
    op.widens = true := by
  cases op with
  | convOp op a =>
    simp only [typeBasicOp, Option.bind_eq_bind, Option.bind_eq_some_iff] at h
    obtain ⟨t', type, _⟩ := h
    cases op with
    | zext src dst => exact decide_eq_true (Option.ite_none_right_eq_some.mp type).1
    | sext src dst => exact decide_eq_true (Option.ite_none_right_eq_some.mp type).1
    | _ => rfl
  | _ => rfl

def BranchEnter (point : List Nat) (eval : Option (List (FVal F))) (vals : List (FVal F))
    (at' : List Nat) (args : List (MVal F)) : Prop :=
  at' = point ∧ args = [] ∧ eval = some vals

def BranchLeave (ts : List PrimType) (vals : List (FVal F)) (outs : List (MVal F))
    (_ : List (Write F)) : Prop :=
  ∃ qs : List (PVal F), vals = qs.map .prim ∧ outs = lowerAll qs ∧
    List.Forall₂ PVal.HasType qs ts

theorem branch_runs {eval : Option (List (FVal F))} {ts : List PrimType}
    {body : Lower (List Value × Ctx)}
    (step : ∀ E', E.Sub E' → ∀ vals, eval = some vals →
      Lower.Runs W point E' body (ExpRun ctx Γ ts vals)) :
    Lower.Runs W point E (Lower.inBlock [] fun _ => body) fun E' p =>
      E' = E ∧ BlockRuns W E p.1 (BranchEnter point eval) (BranchLeave ts) := by
  refine .inBlock _ _ fun vals at' args enter => ?_
  obtain ⟨rfl, rfl, result⟩ := enter
  refine ⟨rfl, fun args E₀ sub₀ _ _ => (step E₀ sub₀ vals result).weaken fun E' ws p _ hp => ?_⟩
  obtain ⟨rfl, ⟨qs, rfl, computes⟩, _⟩ := hp
  exact ⟨lowerAll qs, computes.values, qs, rfl, rfl, computes.types⟩

theorem scfIf_runs {thenBlock elseBlock : Block} {thenEval elseEval : Option (List (FVal F))}
    {ts : List PrimType}
    (thenRuns : BlockRuns W E thenBlock (BranchEnter point thenEval) (BranchLeave ts))
    (elseRuns : BlockRuns W E elseBlock (BranchEnter point elseEval) (BranchLeave ts))
    {c : Bool} {outs : List (FVal F)}
    (eval : (match c with | true => thenEval | false => elseEval) = some outs) :
    ∃ qs : List (PVal F), outs = qs.map .prim ∧ List.Forall₂ PVal.HasType qs ts ∧
      ∀ operands resTys, evalOp W.machine W.call point .scfIf operands [.scalar (.ofBool c)] resTys
        (regionsOf W.machine W.call [thenBlock, elseBlock] E) = some (lowerAll qs, []) := by
  cases c with
  | true =>
    obtain ⟨_, ws, exec, qs, rfl, rfl, types⟩ := thenRuns outs point [] ⟨rfl, rfl, eval⟩
    exact ⟨qs, rfl, types, fun _ _ => by simp [evalOp, regionsOf, Scalar.ofBool, exec]⟩
  | false =>
    obtain ⟨_, ws, exec, qs, rfl, rfl, types⟩ := elseRuns outs point [] ⟨rfl, rfl, eval⟩
    exact ⟨qs, rfl, types, fun _ _ => by simp [evalOp, regionsOf, Scalar.ofBool, exec]⟩

mutual

theorem lowerStms_runs (calls : CallsAgree W prog call) : ∀ (stms : List Stm) (Γ Γ' : Types)
    (ctx : Ctx) (ρ ρ' : Store F) (E : Env F), typeStms prog stms Γ = some Γ' →
    evalStms W.machine.toFloatOps call stms ρ = some ρ' → Stands E ctx Γ ρ →
    FreshNames Γ (stmsBinders stms) →
    Lower.Runs W point E (lowerStms cfg prog calleeOf stms ctx) (StmsRun ctx Γ Γ' ρ')
  | [], Γ, Γ', ctx, ρ, ρ', E, h, eval, stands, _ => by
    unfold lowerStms
    cases h
    rw [evalStms] at eval
    cases eval
    exact .pure ⟨rfl, stands, fun _ _ => rfl⟩
  | .mk pat exp :: rest, Γ, Γ', ctx, ρ, ρ', E, h, eval, stands, fresh => by
    rw [stmsBinders] at fresh
    rw [typeStms] at h
    rw [evalStms] at eval
    obtain ⟨Γ₁, first, later⟩ := Option.bind_eq_some_iff.mp h
    obtain ⟨ρ₁, eval₁, eval₂⟩ := Option.bind_eq_some_iff.mp eval
    unfold lowerStms
    refine .bind (lowerStm_runs calls (.mk pat exp) Γ Γ₁ ctx ρ ρ₁ E first eval₁ stands
      (fresh.sublist (List.sublist_append_left _ _))) fun c E₁ sub₁ hc => ?_
    rw [typeStm] at first
    obtain ⟨ts, _, first⟩ := Option.bind_eq_some_iff.mp first
    obtain ⟨sub, fresh'⟩ := fresh.rest (Option.ite_none_right_eq_some.mp first).2
    refine (lowerStms_runs calls rest Γ₁ Γ' c ρ₁ ρ' E₁ later eval₂ hc.1 fresh').weaken
      fun E' ws d _ hd => ?_
    exact ⟨hd.1, hd.2.1, hc.2.trans (hd.2.2.mono sub)⟩

theorem lowerStm_runs (calls : CallsAgree W prog call) : ∀ (stm : Stm) (Γ Γ' : Types) (ctx : Ctx)
    (ρ ρ' : Store F) (E : Env F), typeStm prog stm Γ = some Γ' →
    evalStm W.machine.toFloatOps call stm ρ = some ρ' → Stands E ctx Γ ρ →
    FreshNames Γ (stm.patNames ++ stm.exp.binders) →
    Lower.Runs W point E (lowerStm cfg prog calleeOf stm ctx) (StmsRun ctx Γ Γ' ρ')
  | .mk pat exp, Γ, Γ', ctx, ρ, ρ', E, h, eval, stands, fresh => by
    rw [typeStm] at h
    rw [evalStm] at eval
    obtain ⟨ts, type, h⟩ := Option.bind_eq_some_iff.mp h
    obtain ⟨types, bound⟩ := Option.ite_none_right_eq_some.mp h
    obtain ⟨vals, eval₁, values⟩ := Option.bind_eq_some_iff.mp eval
    exact lowerStm_of_runs stands (fresh.sublist (List.sublist_append_left _ _))
      (lowerExp_runs calls exp Γ ts ctx ρ vals E type eval₁ stands
        (fresh.sublist (List.sublist_append_right _ _))) types bound values

theorem lowerBody_runs (calls : CallsAgree W prog call) : ∀ (body : Body) (Γ : Types)
    (ts : List PrimType) (ctx : Ctx) (ρ : Store F) (vals : List (FVal F)) (E : Env F),
    typeBody prog body Γ = some ts → evalBody W.machine.toFloatOps call body ρ = some vals →
    Stands E ctx Γ ρ → FreshNames Γ body.binders →
    Lower.Runs W point E (lowerBody cfg prog calleeOf body ctx) (ExpRun ctx Γ ts vals)
  | .mk stms result, Γ, ts, ctx, ρ, vals, E, h, eval, stands, fresh => by
    rw [typeBody] at h
    rw [evalBody] at eval
    obtain ⟨Γ', first, last⟩ := Option.bind_eq_some_iff.mp h
    obtain ⟨ρ', eval₁, eval₂⟩ := Option.bind_eq_some_iff.mp eval
    unfold lowerBody
    refine .bind (lowerStms_runs calls stms Γ Γ' ctx ρ ρ' E first eval₁ stands fresh)
      fun c E₁ sub₁ hc => ?_
    refine .bind (.lift ((lowerSubExps_runs hc.1.rep eval₂).and
      (lowerSubExps_accepts hc.1.typed last))) fun results E₂ sub₂ hresults => ?_
    exact .pure ⟨rfl, computes_of hresults.1 hresults.2, hc.2⟩

theorem lowerExp_runs (calls : CallsAgree W prog call) : ∀ (exp : Exp) (Γ : Types)
    (ts : List PrimType) (ctx : Ctx) (ρ : Store F) (vals : List (FVal F)) (E : Env F),
    typeExp prog exp Γ = some ts → evalExp W.machine.toFloatOps call exp ρ = some vals →
    Stands E ctx Γ ρ → FreshNames Γ exp.binders →
    Lower.Runs W point E (lowerExp cfg prog calleeOf exp ctx) (ExpRun ctx Γ ts vals)
  | .basicOp op, Γ, ts, ctx, ρ, vals, E, h, eval, stands, _ => by
    rw [typeExp] at h
    rw [evalExp] at eval
    obtain ⟨t, type, h⟩ := Option.bind_eq_some_iff.mp h
    obtain ⟨val, hval, eval⟩ := Option.bind_eq_some_iff.mp eval
    cases h
    cases eval
    unfold lowerExp
    refine .bind (.lift ((lowerBasicOp_runs cfg stands.rep (BasicOp.widens_of_type type) hval).and
      (lowerBasicOp_accepts cfg stands.typed type))) fun v E₁ sub₁ hv => ?_
    exact .pure ⟨rfl, computes_of (.cons hv.1 .nil) (.cons hv.2 .nil), fun _ _ => rfl⟩
  | .subExp se, Γ, ts, ctx, ρ, vals, E, h, eval, stands, _ => by
    rw [typeExp] at h
    rw [evalExp] at eval
    obtain ⟨t, type, h⟩ := Option.bind_eq_some_iff.mp h
    obtain ⟨val, hval, eval⟩ := Option.bind_eq_some_iff.mp eval
    cases h
    cases eval
    unfold lowerExp
    refine .bind (.lift ((lowerSubExp_runs stands.rep hval).and
      (lowerSubExp_accepts stands.typed type))) fun v E₁ sub₁ hv => ?_
    exact .pure ⟨rfl, computes_of (.cons hv.1 .nil) (.cons hv.2 .nil), fun _ _ => rfl⟩
  | .apply fname args retTypes, Γ, ts, ctx, ρ, vals, E, h, eval, stands, _ => by
    rw [typeExp] at h
    rw [evalExp] at eval
    obtain ⟨sig, hsig, h⟩ := Option.bind_eq_some_iff.mp h
    obtain ⟨tys, types, h⟩ := Option.bind_eq_some_iff.mp h
    obtain ⟨⟨rfl, rfl⟩, eq⟩ := Option.ite_none_right_eq_some.mp h
    cases eq
    obtain ⟨ins, hins, result⟩ := Option.bind_eq_some_iff.mp eval
    unfold lowerExp
    refine .bind ((lowerApply_runs calls stands.typed stands.rep hsig types hins result).and
      (lowerApply_accepts stands.typed hsig types)) fun vs E₁ sub₁ hvs => ?_
    exact .pure ⟨rfl, computes_of hvs.1 hvs.2, fun _ _ => rfl⟩
  | .ite cond thenBody elseBody retTypes, Γ, ts, ctx, ρ, vals, E, h, eval, stands, fresh => by
    rw [typeExp] at h
    rw [evalExp] at eval
    obtain ⟨c, hc, h⟩ := Option.bind_eq_some_iff.mp h
    obtain ⟨thenTys, hthen, h⟩ := Option.bind_eq_some_iff.mp h
    obtain ⟨elseTys, helse, h⟩ := Option.bind_eq_some_iff.mp h
    obtain ⟨⟨rfl, rfl, rfl⟩, eq⟩ := Option.ite_none_right_eq_some.mp h
    cases eq
    obtain ⟨b, hb, eval⟩ := Option.bind_eq_some_iff.mp eval
    obtain ⟨b, rfl⟩ : ∃ b', b = .bool b' := by
      split at eval
      · exact ⟨_, rfl⟩
      · exact ⟨_, rfl⟩
      · cases eval
    rw [Exp.binders] at fresh
    have freshThen := fresh.sublist (List.sublist_append_left _ _)
    have freshElse := fresh.sublist (List.sublist_append_right _ _)
    unfold lowerExp
    refine .bind (.lift (lowerPrim_runs stands.rep hb)) fun v E₁ sub₁ hv => ?_
    refine .bind ((branch_runs fun E' sub vals h => lowerBody_runs calls thenBody Γ _ ctx ρ vals E'
      hthen h (stands.mono (sub₁.trans sub)) freshThen).and (.inBlock fun _ _ =>
        lowerBody_accepts thenBody Γ _ ctx hthen stands.typed freshThen)) fun p E₂ sub₂ hp => ?_
    obtain ⟨thenBlock, c₁⟩ := p
    obtain ⟨⟨rfl, thenRuns⟩, thenTyped⟩ := hp
    have stands₁ := (stands.mono sub₁).kept thenTyped.2
    refine .bind ((branch_runs fun E' sub vals h => lowerBody_runs calls elseBody Γ _ c₁ ρ vals E'
      helse h (stands₁.mono sub) freshElse).and (.inBlock fun _ _ =>
        lowerBody_accepts elseBody Γ _ c₁ helse stands₁.typed freshElse)) fun q E₃ sub₃ hq => ?_
    obtain ⟨elseBlock, c₂⟩ := q
    obtain ⟨⟨rfl, elseRuns⟩, elseTyped⟩ := hq
    obtain ⟨qs, rfl, types, evalIf⟩ := scfIf_runs thenRuns elseRuns (c := b) (by
      cases b <;> exact eval)
    have seen : [v].mapM E₃ = some [.scalar (.ofBool b)] := by simp [hv.1, PVal.lower]
    have length : (lowerAll qs).length = (thenBlock.yield.map Value.ty).length := by
      rw [lowerAll_length, types.length_eq, List.length_map, ← thenTyped.1.length_eq]
    refine .bind (.lift (create_runs seen (evalIf _ _) length)) fun vs E₄ sub₄ hvs => ?_
    refine .pure ⟨rfl, ⟨qs, rfl, hvs.1, types, ?_⟩, thenTyped.2.trans elseTyped.2⟩
    rw [HasType.all, hvs.2]
    exact HasType.all.mp thenTyped.1
  | .loop merge form body, Γ, ts, ctx, ρ, vals, E, h, eval, stands, fresh => by
    cases form with
    | whileLoop c =>
      rw [typeExp] at h
      cases h
    | forLoop i t bound =>
      rw [typeExp] at h
      rw [evalExp] at eval
      obtain ⟨tys, types, h⟩ := Option.bind_eq_some_iff.mp h
      obtain ⟨n, hn, h⟩ := Option.bind_eq_some_iff.mp h
      obtain ⟨inner, hinner, h⟩ := Option.bind_eq_some_iff.mp h
      obtain ⟨results, hresults, h⟩ := Option.bind_eq_some_iff.mp h
      obtain ⟨⟨rfl, mergeTys, rfl⟩, eq⟩ := Option.ite_none_right_eq_some.mp h
      cases eq
      obtain ⟨inits, hinits, eval⟩ := Option.bind_eq_some_iff.mp eval
      obtain ⟨n, hbound, eval⟩ := Option.bind_eq_some_iff.mp eval
      obtain ⟨p, hp, hn'⟩ := Option.bind_eq_some_iff.mp hbound
      rw [PVal.asInt_eq_some] at hn'
      subst hn'
      rw [Exp.binders] at fresh
      rw [mergeTys] at hinner
      have bind : Γ.bind (i :: mergeNames merge)
        (.prim (.int t) :: ts.map .prim) = some inner := hinner
      unfold lowerExp
      refine .bind (lowerLoop_runs stands types mergeTys hinner (fun E' c ρ' outs stands' h =>
        lowerBody_runs calls body inner _ c ρ' outs E' hresults h stands' (fresh.bind bind))
        hinits hp eval) fun vs E₁ sub₁ hvs => ?_
      exact .pure ⟨rfl, hvs, fun _ _ => rfl⟩
  | .hostOp op, Γ, ts, ctx, ρ, vals, E, h, _, _, _ => by
    rw [typeExp] at h
    cases h

end

end FutharkMlir
