import FutharkMlir.Simulation.Bodies

namespace FutharkMlir

variable {F : Type}

def evalLambda (fl : FloatOps F) (call : String → List (FVal F) → Option (List (FVal F)))
    (params : List Param) (body : Body) (ρ : Store F) (args : List (FVal F)) :
    Option (List (FVal F)) := do
  let ρ ← ρ.bind (params.map Param.name) args
  evalBody fl call body ρ

def typeLambda (prog : Prog) (Γ : Types) (params : List Param) (body : Body) :
    Option (List PrimType) := do
  let Γ ← Γ.bind (params.map Param.name) (params.map Param.ty)
  typeBody prog body Γ

variable {cfg : Config} {prog : Prog} {W : World F} {point : List Nat} {E : Env F} {ctx : Ctx}
  {Γ : Types} {ρ : Store F} {call : String → List (FVal F) → Option (List (FVal F))}

/-- Lowered with its parameters bound to values, the body computes the results of the lambda
on these. -/
theorem lowerLambda_runs (calls : CallsAgree W prog call) (stands : Stands E ctx Γ ρ)
    {params : List Param} {body : Body} {ts rets : List PrimType}
    (type : typeLambda prog Γ params body = some rets)
    (types : params.map Param.ty = ts.map .prim)
    (fresh : FreshNames Γ (params.map Param.name ++ body.binders)) {ps : List (PVal F)}
    {outs : List (FVal F)}
    (eval : evalLambda W.machine.toFloatOps call params body ρ (ps.map .prim) = some outs)
    {args : List Value} (computes : Computes E args ps ts) :
    Lower.Runs W point E (lowerBody cfg prog calleeOf body (bindParams ctx params args))
      fun E' r => ∃ qs, outs = qs.map .prim ∧ Computes E' r.1 qs rets := by
  obtain ⟨Γ', bound, type⟩ := Option.bind_eq_some_iff.mp type
  obtain ⟨ρ', values, eval⟩ := Option.bind_eq_some_iff.mp eval
  rw [types] at bound
  have inner := stands.bind computes bound values
  rw [← zip_map_fst] at inner
  exact (lowerBody_runs calls body Γ' rets _ ρ' outs E type eval inner (fresh.bind bound)).weaken
    fun E' ws r _ h => ⟨h.1, h.2.1⟩

theorem lowersTo_params {params : List Param} {tys : List MlirTy} {ts : List PrimType}
    (h : params.mapM (fun p => lowerTy p.ty) = .ok tys)
    (types : params.map Param.ty = ts.map .prim) : LowersTo tys ts := by
  have each : List.Forall₂ (fun ty mlir => lowerTy ty = .ok mlir) (params.map Param.ty) tys :=
    List.forall₂_map_left_iff.mpr (Except.mapM_eq_ok.mp h)
  rw [types, List.forall₂_map_left_iff] at each
  exact each.flip

def lambdaOp (fl : FloatOps F) (call : String → List (FVal F) → Option (List (FVal F)))
    (params : List Param) (body : Body) (ρ : Store F) (a b : PVal F) : Option (PVal F) :=
  match evalLambda fl call params body ρ [.prim a, .prim b] with
  | some [.prim c] => some c
  | _ => none

theorem lambdaOp_eq_some {fl : FloatOps F} {params : List Param} {body : Body} {a b c : PVal F} :
    lambdaOp fl call params body ρ a b = some c ↔
      evalLambda fl call params body ρ [.prim a, .prim b] = some [.prim c] := by
  unfold lambdaOp
  split
  · rename_i d eq
    simp [eq]
  · rename_i other
    constructor
    · intro h
      cases h
    · exact fun h => (other c h).elim

end FutharkMlir
