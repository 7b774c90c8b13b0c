import FutharkMlir.Lib.Triples
import FutharkMlir.Programs.Operations

/-! Values that are cast to the types that are declared for them: where the extents fit, the
cast value means the same. -/
namespace FutharkMlir

variable {F : Type}

abbrev Denoted (E : Env F) (vs : List Value) (vals : List (FVal F)) (tys : List MlirTy) : Prop :=
  List.Forall₃ (fun v val ty => Denotes val ty E v) vs vals tys

namespace Denoted

variable {E E' : Env F} {vs : List Value} {vals : List (FVal F)} {tys : List MlirTy}

theorem mono (h : Denoted E vs vals tys) (sub : E.Sub E') : Denoted E' vs vals tys :=
  h.imp fun _ _ _ hv => hv.mono sub

theorem represents (h : Denoted E vs vals tys) : List.Forall₂ (Represents E) vs vals :=
  h.fst fun _ _ _ hv => hv.1

theorem types (h : Denoted E vs vals tys) : vs.map Value.ty = tys := by
  have each : List.Forall₂ (fun v ty => v.ty = ty) vs tys := h.snd fun _ _ _ hv => hv.2
  rwa [← List.forall₂_map_left_iff (f := Value.ty) (R := (· = ·)), List.forall₂_eq_eq_eq] at each

theorem of (rep : List.Forall₂ (Represents E) vs vals) (types : vs.map Value.ty = tys) :
    Denoted E vs vals tys := by
  have each : List.Forall₂ (fun v ty => v.ty = ty) vs tys := by
    rw [← types, List.forall₂_map_right_iff, List.forall₂_same]
    exact fun _ _ => rfl
  exact (List.Forall₃.of_both rep each).imp fun _ _ _ h => h

end Denoted

/-- The value fits the extents of the other type, which has the same elements. -/
def Castable (val : FVal F) (src dst : MlirTy) : Prop :=
  castable src dst = true ∧ ∀ shape e a, dst = .tensor shape e → val = .array a → Fits shape a.shape

section Casts

variable {W : World F} {point : List Nat} {E : Env F}

theorem castToType_denotes {v : Value} {val : FVal F} {src dst : MlirTy} (h : Denotes val src E v)
    (cast : Castable val src dst) :
    Emit.Runs W point E (castToType v dst) (Denotes val dst) := by
  obtain ⟨rep, rfl⟩ := h
  obtain ⟨same, fits⟩ := cast
  unfold castToType
  split
  · rename_i eq
    exact .pure ⟨rfl, rep, eq⟩
  · rename_i ne
    cases val with
    | prim p =>
      rw [rep.2, castable] at same
      · exact (ne (rep.2.trans (beq_iff_eq.mp same))).elim
      · intro _ _ _ _ h
        cases h
    | array a =>
      obtain ⟨t, s, e, value, ty, _, shape, elements⟩ := rep
      cases dst with
      | scalar e' =>
        rw [ty] at same
        cases same
      | tensor s' e' =>
        rw [ty, castable, beq_iff_eq] at same
        subst same
        have fit := fits s' e a rfl rfl
        split
        · have seen : [v].mapM E = some [.tensor t] := by simp [value]
          refine (create1_runs seen ?_).weaken fun E' ws u _ hu =>
            ⟨hu.1, ⟨t, s', e, hu.2.1, hu.2.2, shape ▸ fit, shape, elements⟩, hu.2.2⟩
          simp [evalOp, evalTensorOp, shape, fit]
        · split
          · exact fun ip u ip' run => by cases run
          · exact fun ip u ip' run => by cases run

theorem lowerTys_cons {ty : Ty} {tys : List Ty} {dsts : List MlirTy}
    (h : lowerTys (ty :: tys) = some dsts) :
    ∃ dst rest, lowerTy ty = .ok dst ∧ lowerTys tys = some rest ∧ dsts = dst :: rest := by
  rw [lowerTys, toOption_eq_some, Except.mapM_eq_ok] at h
  cases h with
  | cons head tail => exact ⟨_, _, head, toOption_eq_some.mpr (Except.mapM_eq_ok.mpr tail), rfl⟩

theorem castable_of_fits {val : FVal F} {ty : Ty} {src dst : MlirTy} (fits : val.fits ty = true)
    (lowered : lowerTy ty = .ok dst) (same : castable src dst = true) : Castable val src dst := by
  refine ⟨same, fun shape e a eq array => ?_⟩
  subst array eq
  cases ty with
  | array elem dims =>
    simp only [lowerTy, Except.bind_eq_ok, Except.pure_eq_ok] at lowered
    obtain ⟨s, hs, _, _, eq⟩ := lowered
    cases eq
    simp only [FVal.fits, hs, decide_eq_true_eq] at fits
    exact fits
  | prim t => cases fits
  | acc => cases fits
  | mem => cases fits

theorem castable_all {vals : List (FVal F)} {tys : List Ty} {srcs dsts : List MlirTy}
    (fits : allFit tys vals = true) (lowered : lowerTys tys = some dsts)
    (same : allCastable srcs dsts = true) : List.Forall₃ Castable vals srcs dsts := by
  induction tys generalizing vals srcs dsts with
  | nil =>
    cases lowered
    cases vals with
    | nil =>
      cases srcs with
      | nil => exact .nil
      | cons src srcs => cases same
    | cons val vals => cases fits
  | cons ty tys ih =>
    obtain ⟨dst, rest, head, tail, rfl⟩ := lowerTys_cons lowered
    cases vals with
    | nil => cases fits
    | cons val vals =>
      cases srcs with
      | nil => cases same
      | cons src srcs =>
        rw [allFit, Bool.and_eq_true] at fits
        rw [allCastable, Bool.and_eq_true] at same
        exact .cons (castable_of_fits fits.1 head same.1) (ih fits.2 tail same.2)

/-- Each element is lowered to a value that means its image, at its type. -/
theorem Emit.Effects.mapM_denoted {α : Type} {f : α → Emit Value} {xs : List α}
    {vals : List (FVal F)} {tys : List MlirTy}
    (h : List.Forall₃ (fun x val ty => ∀ E', E.Sub E' →
      Emit.Runs W point E' (f x) (Denotes val ty)) xs vals tys) :
    Emit.Runs W point E (xs.mapM f) fun E' vs => Denoted E' vs vals tys := by
  induction xs generalizing E vals tys with
  | nil =>
    cases h
    exact .pure ⟨rfl, .nil⟩
  | cons x xs ih =>
    cases h with
    | cons hx hxs =>
      rw [List.mapM_cons]
      refine .bind (hx E (.refl E)) fun v E₁ sub₁ hv => ?_
      refine .bind (ih (hxs.imp fun _ _ _ h E' sub => h E' (sub₁.trans sub)))
        fun vs E₂ sub₂ hvs => ?_
      exact .pure ⟨rfl, .cons (hv.mono sub₂) hvs⟩

theorem castAll_denoted {vs : List Value} {vals : List (FVal F)} {srcs dsts : List MlirTy}
    (h : Denoted E vs vals srcs) (casts : List.Forall₃ Castable vals srcs dsts) :
    Emit.Runs W point E (castAll (vs.zip dsts)) fun E' us => Denoted E' us vals dsts := by
  refine .mapM_denoted ?_
  induction casts generalizing vs with
  | nil =>
    cases h
    exact .nil
  | cons cast _ ih =>
    cases h with
    | cons hv hvs =>
      exact .cons (fun E' sub => castToType_denotes (hv.mono sub) cast) (ih hvs)

variable {Γ : Types} {ctx : Ctx} {ρ : Store F}

theorem lowerSubExps_denoted (h : Exact E ctx Γ ρ) {ses : List SubExp} {tys : List MlirTy}
    {vals : List (FVal F)} (check : ses.mapM (loweredType Γ) = some tys)
    (eval : ses.mapM (evalSubExp W.machine.toFloatOps ρ) = some vals) :
    Emit.Runs W point E (lowerSubExps ctx ses) fun E' vs => Denoted E' vs vals tys := by
  refine .mapM_denoted ?_
  rw [List.mapM_eq_some] at check eval
  exact (List.Forall₃.of_both eval check).imp fun _ _ _ both E' sub =>
    lowerSubExp_denotes (h.mono sub) both.2 both.1

theorem castSubExp_denotes (h : Exact E ctx Γ ρ) {se : SubExp} {src dst : MlirTy} {val : FVal F}
    (check : loweredType Γ se = some src)
    (eval : evalSubExp W.machine.toFloatOps ρ se = some val) (cast : Castable val src dst) :
    Emit.Runs W point E (do
      let v ← lowerSubExp ctx se
      castToType v dst) (Denotes val dst) :=
  .bind (lowerSubExp_denotes h check eval) fun _ _ _ hv => castToType_denotes hv cast

theorem lowerCallArgs_denoted (h : Exact E ctx Γ ρ) {args : List SubExp} {srcs dsts : List MlirTy}
    {vals : List (FVal F)} (check : args.mapM (loweredType Γ) = some srcs)
    (eval : args.mapM (evalSubExp W.machine.toFloatOps ρ) = some vals)
    (casts : List.Forall₃ Castable vals srcs dsts) :
    Emit.Runs W point E (lowerCallArgs ctx (args.zip dsts)) fun E' vs => Denoted E' vs vals dsts := by
  refine .mapM_denoted ?_
  rw [List.mapM_eq_some] at check eval
  induction casts generalizing args with
  | nil =>
    cases eval
    exact .nil
  | cons cast _ ih =>
    cases eval with
    | cons he hes =>
      cases check with
      | cons hc hcs =>
        exact .cons (fun E' sub => castSubExp_denotes (h.mono sub) hc he cast) (ih hcs hes)

/-- What a loop starts with has the types of its parameters. -/
theorem loopInits_denoted (h : Exact E ctx Γ ρ) {merge : List (Param × SubExp)}
    {srcs dsts : List MlirTy} {vals : List (FVal F)}
    (lowered : lowerTys (merge.map fun m => m.1.ty) = some dsts)
    (check : (merge.map Prod.snd).mapM (loweredType Γ) = some srcs)
    (eval : (merge.map Prod.snd).mapM (evalSubExp W.machine.toFloatOps ρ) = some vals)
    (casts : List.Forall₃ Castable vals srcs dsts) :
    Emit.Runs W point E (loopInits merge ctx) fun E' inits => inits.map Prod.fst = dsts ∧
      Denoted E' (inits.map Prod.snd) vals dsts := by
  unfold loopInits
  rw [List.mapM_eq_some, List.forall₂_map_left_iff] at check eval
  induction casts generalizing merge E with
  | nil =>
    cases eval
    exact .pure ⟨rfl, rfl, .nil⟩
  | @cons val _ dst _ _ _ cast _ ih =>
    cases eval with
    | @cons m _ merge _ he hes =>
      cases check with
      | cons hc hcs =>
        rw [List.map_cons] at lowered
        obtain ⟨_, _, head, tail, eq⟩ := lowerTys_cons lowered
        cases eq
        rw [List.mapM_cons]
        have first : Emit.Runs W point E (do
            let ty ← lowerTy m.1.ty
            let v ← lowerSubExp ctx m.2
            let init ← castToType v ty
            return (ty, init)) fun E' p => p.1 = dst ∧ Denotes val dst E' p.2 := by
          refine .bind (.liftExcept _) fun ty E₁ sub₁ hty => ?_
          obtain ⟨rfl, hty⟩ := hty
          cases head.symm.trans hty
          refine .bind (lowerSubExp_denotes h hc he) fun v E₂ sub₂ hv => ?_
          exact .bind (castToType_denotes hv cast) fun u E₃ sub₃ hu => .pure ⟨rfl, rfl, hu⟩
        refine .bind first fun p E₁ sub₁ hp => ?_
        refine .bind (ih (h.mono sub₁) tail hcs hes) fun ps E₂ sub₂ hps => ?_
        exact .pure ⟨rfl, by rw [List.map_cons, hp.1, hps.1], .cons (hp.2.mono sub₂) hps.2⟩

end Casts

end FutharkMlir
