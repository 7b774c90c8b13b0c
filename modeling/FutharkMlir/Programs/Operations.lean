import FutharkMlir.Programs.Static

namespace FutharkMlir

variable {F : Type}

/-- The environment stands for the store, and every name has just its type. -/
structure Exact (E : Env F) (ctx : Ctx) (Γ : Types) (ρ : Store F) : Prop where
  typed : ctx.Related HasExact Γ
  rep : ctx.Represents E ρ
  covers : Covers Γ ρ

theorem Exact.mono {E E' : Env F} {ctx : Ctx} {Γ : Types} {ρ : Store F} (h : Exact E ctx Γ ρ)
    (sub : E.Sub E') : Exact E' ctx Γ ρ := ⟨h.typed, h.rep.mono sub, h.covers⟩

theorem Exact.stands {E : Env F} {ctx : Ctx} {Γ : Types} {ρ : Store F} (h : Exact E ctx Γ ρ) :
    Stands E ctx Γ ρ := ⟨related_hasTy h.typed, h.rep, h.covers⟩

def Denotes (val : FVal F) (ty : MlirTy) (E : Env F) (v : Value) : Prop :=
  Represents E v val ∧ v.ty = ty

theorem Denotes.mono {E E' : Env F} {val : FVal F} {ty : MlirTy} {v : Value}
    (h : Denotes val ty E v) (sub : E.Sub E') : Denotes val ty E' v := ⟨h.1.mono sub, h.2⟩

section Scalars

variable {fl : FloatOps F} {E : Env F} {Γ : Types} {ctx : Ctx} {ρ : Store F}

/-- What has a scalar type is a scalar of the type. -/
theorem Stands.evalPrim_type (h : Stands E ctx Γ ρ) {se : SubExp} {t : PrimType} {p : PVal F}
    (type : typeSubExp Γ se = some t) (eval : evalPrim fl ρ se = some p) : p.HasType t := by
  obtain ⟨val, hval, prim⟩ := Option.bind_eq_some_iff.mp eval
  cases se with
  | const c =>
    cases c with
    | unit => cases type
    | int c =>
      cases type
      cases hval
      cases prim
      rfl
    | float c =>
      cases type
      cases hval
      cases prim
      rfl
    | bool b =>
      cases type
      cases hval
      cases prim
      rfl
  | var x =>
    obtain ⟨ty, bound, scalar⟩ := Option.bind_eq_some_iff.mp type
    rw [Ty.scalar_eq scalar] at bound
    obtain ⟨v, hv, rep⟩ := h.rep x val hval
    obtain ⟨w, hw, hasTy⟩ := h.typed x _ bound
    cases hv.symm.trans hw
    obtain ⟨q, rfl, hq, _⟩ := rep.prim hasTy
    cases prim
    exact hq

theorem Stands.evalPrims_types (h : Stands E ctx Γ ρ) {ses : List SubExp} {ts : List PrimType}
    {ps : List (PVal F)} (types : ses.mapM (typeSubExp Γ) = some ts)
    (eval : ses.mapM (evalPrim fl ρ) = some ps) : List.Forall₂ PVal.HasType ps ts := by
  rw [List.mapM_eq_some] at types eval
  induction types generalizing ps with
  | nil =>
    cases eval
    exact .nil
  | cons ht _ ih =>
    cases eval with
    | cons hp hps => exact .cons (h.evalPrim_type ht hp) (ih hps)

theorem evalPrims_eq {ses : List SubExp} {ps : List (PVal F)}
    (h : ses.mapM (evalPrim fl ρ) = some ps) :
    ses.mapM (evalSubExp fl ρ) = some (ps.map .prim) := by
  rw [List.mapM_eq_some] at h
  rw [List.mapM_eq_some, List.forall₂_map_right_iff]
  refine h.imp fun se p hp => ?_
  obtain ⟨val, hval, prim⟩ := Option.bind_eq_some_iff.mp hp
  cases val with
  | prim q =>
    cases prim
    exact hval
  | array a => cases prim

end Scalars

section Runs

variable {W : World F} {point : List Nat} {E : Env F} {Γ : Types} {ctx : Ctx} {ρ : Store F}

theorem lowerSubExp_denotes (h : Exact E ctx Γ ρ) {se : SubExp} {ty : MlirTy} {val : FVal F}
    (check : loweredType Γ se = some ty)
    (eval : evalSubExp W.machine.toFloatOps ρ se = some val) :
    Emit.Runs W point E (lowerSubExp ctx se) (Denotes val ty) :=
  (lowerSubExp_runs h.rep eval).returns (lowerSubExp_type h.typed check)

theorem lowerSlice_runs (h : Exact E ctx Γ ρ) {arr : VName} {dims : List DimIndex} {val : FVal F}
    (slices : dims.any DimIndex.isSlice = true)
    (eval : evalSlice W.machine.toFloatOps ρ arr dims = some val) :
    Emit.Runs W point E (lowerIndex arr dims ctx) fun E' u => Represents E' u val := by
  unfold evalSlice at eval
  split at eval
  · rename_i a stored
    obtain ⟨ivs, hvalues, eval⟩ := Option.bind_eq_some_iff.mp eval
    have values := List.mapM_eq_some.mp hvalues
    obtain ⟨inside, eval⟩ := Option.ite_none_right_eq_some.mp eval
    rw [any_isSlice values] at slices
    rw [if_pos slices] at eval
    cases eval
    exact (lowerIndex_slices h.rep stored values slices inside).weaken fun E' ws u _ hu =>
      ⟨hu.1, hu.2.1⟩
  · cases eval

theorem lowerLiteral_runs (h : Exact E ctx Γ ρ) {values : List SubExp} {t : Ty} {ty : MlirTy}
    {val : FVal F} (check : checkLiteral Γ values t = some ty)
    (eval : evalLiteral W.machine.toFloatOps ρ values = some val) :
    Emit.Runs W point E (lowerArrayLit values t ctx) fun E' u => Represents E' u val := by
  cases t with
  | array t shape =>
    obtain ⟨ts, types, check⟩ := Option.bind_eq_some_iff.mp check
    obtain ⟨⟨same, rfl, small⟩, _⟩ := Option.ite_none_right_eq_some.mp check
    obtain ⟨ps, hps, eval⟩ := Option.bind_eq_some_iff.mp eval
    cases ps with
    | nil => cases eval
    | cons p ps =>
      cases eval
      have hasTypes := h.stands.evalPrims_types types hps
      have typed : ∀ q ∈ p :: ps, q.HasType t := by
        intro q hq
        obtain ⟨k, at'⟩ := List.getElem?_of_mem hq
        obtain ⟨t', known, hasType⟩ := List.forall₂_getElem? hasTypes at'
        rwa [same t' (List.mem_of_getElem? known)] at hasType
      exact (scalarLit_runs h.rep (evalPrims_eq hps) typed small).weaken fun E' ws u _ hu =>
        ⟨hu.1, hu.2.1⟩
  | prim t => cases check
  | acc => cases check
  | mem => cases check

theorem lowerReplicated_runs (cfg : Config) (h : Exact E ctx Γ ρ) {dims : List SubExp}
    {se : SubExp} {val : FVal F}
    (eval : evalReplicate W.machine.toFloatOps ρ dims se = some val) :
    Emit.Runs W point E (lowerReplicate cfg dims se ctx) fun E' u => Represents E' u val := by
  simp only [evalReplicate, Option.bind_eq_bind, Option.bind_eq_some_iff] at eval
  obtain ⟨ns, hdims, v, hval, eval⟩ := eval
  obtain ⟨indexable, eq⟩ := Option.ite_none_right_eq_some.mp eval
  cases eq
  exact lowerReplicate_runs cfg h.rep hdims hval indexable

theorem lowerBasicOp_denotes (cfg : Config) (h : Exact E ctx Γ ρ) {op : BasicOp} {ty : MlirTy}
    {val : FVal F} (check : checkOp Γ op = some ty)
    (eval : computeOp W.machine.toFloatOps ρ op = some val) :
    Emit.Runs W point E (lowerBasicOp cfg op ctx) (Denotes val ty) := by
  have scalar (check : (typeBasicOp Γ op).bind (fun t => (lowerTy (.prim t)).toOption) = some ty)
      (eval : evalBasicOp W.machine.toFloatOps ρ op = some val) :
      Emit.Runs W point E (lowerBasicOp cfg op ctx) fun E' u => Represents E' u val := by
    obtain ⟨t, type, _⟩ := Option.bind_eq_some_iff.mp check
    exact lowerBasicOp_runs cfg h.rep (BasicOp.widens_of_type type) eval
  refine Emit.Effects.returns ?_ (lowerBasicOp_type cfg h.typed check)
  cases op with
  | subExp se => exact lowerSubExp_runs h.rep eval
  | index arr dims =>
    rw [computeOp] at eval
    rw [checkOp] at check
    split at eval
    · exact lowerSlice_runs h ‹_› eval
    · rename_i fixed
      rw [if_neg fixed] at check
      exact scalar check eval
  | iota n x s t =>
    obtain ⟨d, shape, _⟩ := Option.bind_eq_some_iff.mp check
    exact (lowerIota_runs h.rep eval (toOption_eq_some.mp shape)).weaken fun E' ws u _ hu =>
      ⟨hu.1, hu.2.1⟩
  | replicate dims val => exact lowerReplicated_runs cfg h eval
  | arrayLit values t => exact lowerLiteral_runs h check eval
  | binOp op a b => exact scalar check eval
  | cmpOp op a b => exact scalar check eval
  | convOp op a => exact scalar check eval
  | _ => cases eval

end Runs

end FutharkMlir
