import FutharkMlir.Simulation.Bodies

namespace FutharkMlir

variable {F : Type} {cfg : Config} {prog : Prog}

/-- Every function of the program has a type, and the names bound in it and in the
constants are distinct. -/
structure WellTyped (prog : Prog) : Prop where
  functions : ∀ f ∈ prog.funs, (typeFunction prog f).isSome
  names : (prog.funs.map FunDef.name).Nodup
  binders : ∀ f ∈ prog.funs, (functionBinders prog f).Nodup

theorem FreshNames.empty {names : List VName} (nodup : names.Nodup) :
    FreshNames Binding.empty names := ⟨nodup, fun _ _ => rfl⟩

theorem findFunction_self (distinct : (prog.funs.map FunDef.name).Nodup) {f : FunDef}
    (member : f ∈ prog.funs) : findFunction prog f.name = some f := by
  cases found : findFunction prog f.name with
  | none => simpa using List.find?_eq_none.mp found f member
  | some g =>
    have name : g.name = f.name := by simpa using List.find?_some found
    rw [same_function distinct (List.mem_of_find?_eq_some found) member name]

structure FunctionTypes (prog : Prog) (f : FunDef) (sig : List PrimType × List PrimType)
    (Γ Γ' : Types) : Prop where
  scalars : scalarSig prog f.name = some sig
  params : f.params.map Param.ty = sig.1.map .prim
  consts : typeStms prog prog.consts Binding.empty = some Γ
  bound : Γ.bind (paramNames f.params) (sig.1.map .prim) = some Γ'
  body : typeBody prog f.body Γ' = some sig.2

theorem scalars_prims {tys : List Ty} {ts : List PrimType} (h : tys.mapM Ty.scalar = some ts) :
    tys = ts.map .prim := by
  rw [List.mapM_eq_some] at h
  induction h with
  | nil => rfl
  | cons hx _ ih => rw [List.map_cons, ← ih, Ty.scalar_eq hx]

theorem typeFunction_types (distinct : (prog.funs.map FunDef.name).Nodup) {f : FunDef}
    (member : f ∈ prog.funs) {sig : List PrimType × List PrimType}
    (h : typeFunction prog f = some sig) : ∃ Γ Γ', FunctionTypes prog f sig Γ Γ' := by
  unfold typeFunction at h
  obtain ⟨sig', hsig, h⟩ := Option.bind_eq_some_iff.mp h
  obtain ⟨Γ, consts, h⟩ := Option.bind_eq_some_iff.mp h
  obtain ⟨Γ', bound, h⟩ := Option.bind_eq_some_iff.mp h
  obtain ⟨results, body, h⟩ := Option.bind_eq_some_iff.mp h
  obtain ⟨rfl, eq⟩ := Option.ite_none_right_eq_some.mp h
  cases eq
  have params : f.params.map Param.ty = sig.1.map .prim := by
    unfold scalarSig at hsig
    rw [findFunction_self distinct member] at hsig
    obtain ⟨_, hsig⟩ := Option.ite_none_right_eq_some.mp hsig
    obtain ⟨ts, scalars, hsig⟩ := Option.bind_eq_some_iff.mp hsig
    obtain ⟨_, _, hsig⟩ := Option.bind_eq_some_iff.mp hsig
    cases hsig
    exact scalars_prims scalars
  exact ⟨Γ, Γ', hsig, params, consts, params ▸ bound, body⟩

section Accepts

theorem sizeAnnotations_scalars {params : List Param} {ts : List PrimType}
    (h : params.map Param.ty = ts.map .prim) (i : Int) (table : List (String × Int)) :
    ∃ sizes, sizeAnnotations i table params = .ok sizes := by
  induction params generalizing i table ts with
  | nil => exact ⟨[], rfl⟩
  | cons p params ih =>
    cases ts with
    | nil => cases h
    | cons t ts =>
      rw [List.map_cons, List.map_cons, List.cons.injEq] at h
      obtain ⟨sizes, hsizes⟩ := ih h.2 (i + 1) ((p.name, i) :: table)
      exact ⟨none :: sizes, by rw [sizeAnnotations, h.1, hsizes]; rfl⟩

variable {f : FunDef} {sig : List PrimType × List PrimType} {Γ Γ' : Types}

theorem declareFunction_accepts (types : FunctionTypes prog f sig Γ Γ') {func : FuncSig}
    (hfunc : funcSig f = .ok func) : ∃ F, declareFunction f = .ok F ∧ F.sig = func := by
  have sizes : ∃ s, sizeArgs f = .ok s := by
    unfold sizeArgs
    split
    · exact sizeAnnotations_scalars types.params 0 []
    · exact ⟨_, rfl⟩
  obtain ⟨s, hs⟩ := sizes
  exact ⟨_, by rw [declareFunction, hfunc, hs]; rfl, rfl⟩

/-- Names that come after statements are new once these are typed. -/
theorem FreshNames.stms {stms : List Stm} {Γ Γ' : Types} {ys : List VName}
    (h : typeStms prog stms Γ = some Γ') (fresh : FreshNames Γ (stmsBinders stms ++ ys)) :
    FreshNames Γ' ys := by
  induction stms generalizing Γ with
  | nil =>
    rw [typeStms] at h
    cases h
    exact fresh
  | cons stm rest ih =>
    obtain ⟨pat, exp⟩ := stm
    rw [typeStms] at h
    obtain ⟨Γ₁, first, later⟩ := Option.bind_eq_some_iff.mp h
    rw [typeStm] at first
    obtain ⟨ts, _, first⟩ := Option.bind_eq_some_iff.mp first
    rw [stmsBinders, List.append_assoc] at fresh
    exact ih later (fresh.rest (Option.ite_none_right_eq_some.mp first).2).2

/-- The names bound by the constants, the parameters and the body, one after the other. -/
theorem functionBinders_fresh (types : FunctionTypes prog f sig Γ Γ')
    (binders : (functionBinders prog f).Nodup) :
    FreshNames Binding.empty (stmsBinders prog.consts) ∧ FreshNames Γ (paramNames f.params) ∧
      FreshNames Γ' f.body.binders := by
  have all : FreshNames Binding.empty (stmsBinders prog.consts ++
      (paramNames f.params ++ f.body.binders)) := by
    rw [← List.append_assoc]
    exact .empty binders
  have afterConsts := all.stms types.consts
  exact ⟨all.sublist (List.sublist_append_left _ _),
    afterConsts.sublist (List.sublist_append_left _ _), afterConsts.bind types.bound⟩

variable {args : List Value} {func : FuncSig}

theorem lowerFunctionBody_accepts (types : FunctionTypes prog f sig Γ Γ')
    (binders : (functionBinders prog f).Nodup) (lowers : LowersTo (args.map Value.ty) sig.1) :
    (lowerFunctionBody cfg prog calleeOf f args).Accepts fun vs => List.Forall₂ HasType vs sig.2 := by
  obtain ⟨fresh, _, fresh'⟩ := functionBinders_fresh types binders
  unfold lowerFunctionBody
  refine .bind (lowerStms_accepts prog.consts _ Γ _ types.consts (fun x ty h => by cases h) fresh)
    fun c hc => ?_
  have length : f.params.length = args.length := by
    rw [← List.length_map (f := Param.ty), types.params, List.length_map, ← lowers.length_eq,
      List.length_map]
  refine .bind (.liftExcept (zipEqual_of_length cfg length) rfl) fun pairs eq => ?_
  subst eq
  rw [zip_map_fst]
  have rel : List.Forall₂ HasTy args (sig.1.map .prim) := by
    rw [List.forall₂_map_right_iff]
    exact HasType.all.mpr lowers
  refine .bind (lowerBody_accepts f.body Γ' _ _ types.body (hc.1.insertAll types.bound rel) fresh')
    fun p hp => .pure hp.1

theorem lowerFunctionBody_runs {W : World F} {point : List Nat} {E : Env F}
    {call : String → List (FVal F) → Option (List (FVal F))} (calls : CallsAgree W prog call)
    (types : FunctionTypes prog f sig Γ Γ') (binders : (functionBinders prog f).Nodup)
    {ps : List (PVal F)} (computes : Computes E args ps sig.1) {ρ ρ' : Store F}
    {outs : List (FVal F)}
    (consts : evalStms W.machine.toFloatOps call prog.consts Binding.empty = some ρ)
    (params : ρ.bind (paramNames f.params) (ps.map .prim) = some ρ')
    (eval : evalBody W.machine.toFloatOps call f.body ρ' = some outs) :
    Lower.Runs W point E (lowerFunctionBody cfg prog calleeOf f args) fun E' vs =>
      ∃ qs : List (PVal F), outs = qs.map .prim ∧ Computes E' vs qs sig.2 := by
  obtain ⟨fresh, _, fresh'⟩ := functionBinders_fresh types binders
  have start : Stands E Ctx.empty Binding.empty Binding.empty :=
    ⟨fun x ty h => (by cases h), fun x val h => (by cases h), fun x h => absurd rfl h⟩
  unfold lowerFunctionBody
  refine .bind (lowerStms_runs calls prog.consts _ Γ _ _ ρ E types.consts consts start fresh)
    fun c E₁ sub₁ hc => ?_
  refine .bind (.liftExcept _) fun pairs E₂ sub₂ hpairs => ?_
  obtain ⟨rfl, hpairs⟩ := hpairs
  rw [zipEqual_eq cfg hpairs, zip_map_fst]
  refine .bind (lowerBody_runs calls f.body Γ' _ _ ρ' outs E₂ types.body eval
    (hc.1.bind (computes.mono sub₁) types.bound params) fresh') fun p E₃ sub₃ hp => ?_
  exact .pure ⟨rfl, hp.1⟩

end Accepts

section Calls

variable {f : FunDef} {sig : List PrimType × List PrimType} {Γ Γ' : Types}

/-- A function with a type is lowered, to a `FuncOp` of its signature. -/
theorem lowerAlone_accepts (types : FunctionTypes prog f sig Γ Γ') (cfg : Config)
    (distinct : (prog.funs.map FunDef.name).Nodup) (member : f ∈ prog.funs)
    (binders : (functionBinders prog f).Nodup) :
    ∃ func, lowerAlone cfg prog f = .ok (some func) := by
  obtain ⟨g, func, found, lowered, hfunc, lowersArgs, _⟩ := scalarSig_lowers types.scalars
  cases (findFunction_self distinct member).symm.trans found
  obtain ⟨op, declared, rfl⟩ := declareFunction_accepts types hfunc
  have argTypes : LowersTo ((freshValues f.name 0 op.sig.argTypes).map Value.ty) sig.1 := by
    rw [freshValues_types]
    exact lowersArgs
  have accepts : (lowerFunctionBody cfg prog calleeOf f _).Accepts _ :=
    lowerFunctionBody_accepts types binders argTypes
  obtain ⟨yield, b, run, _⟩ :=
    accepts { initialBuilder with ip := ⟨f.name, op.sig.argTypes.length, [], []⟩ }
  rw [lowerAlone_eq cfg prog (FunDef.lowered_iff.mp lowered), declared]
  dsimp only
  rw [run]
  exact ⟨_, rfl⟩

/-- The body of a function lowered alone computes what the function does, where the calls
in it do. -/
theorem lowerAlone_runs {W : World F} {call : String → List (FVal F) → Option (List (FVal F))}
    (calls : CallsAgree W prog call) (types : FunctionTypes prog f sig Γ Γ')
    (distinct : (prog.funs.map FunDef.name).Nodup) (member : f ∈ prog.funs)
    (binders : (functionBinders prog f).Nodup) {func : FuncOp}
    (alone : lowerAlone cfg prog f = .ok (some func)) {ps : List (PVal F)}
    (args : List.Forall₂ PVal.HasType ps sig.1) {ρ ρ' : Store F} {outs : List (FVal F)}
    (consts : evalStms W.machine.toFloatOps call prog.consts Binding.empty = some ρ)
    (params : ρ.bind (paramNames f.params) (ps.map .prim) = some ρ')
    (eval : evalBody W.machine.toFloatOps call f.body ρ' = some outs) :
    ∃ body qs ws, func.body = some body ∧ outs = List.map FVal.prim qs ∧
      List.Forall₂ PVal.HasType qs sig.2 ∧
      execBlock W.machine W.call body [] Binding.empty (lowerAll ps) =
        some (lowerAll qs, ws) := by
  obtain ⟨g, funcSig, found, lowered, hfunc, lowersArgs, _⟩ := scalarSig_lowers types.scalars
  cases (findFunction_self distinct member).symm.trans found
  obtain ⟨op, declared, rfl⟩ := declareFunction_accepts types hfunc
  rw [lowerAlone_eq cfg prog (FunDef.lowered_iff.mp lowered), declared] at alone
  dsimp only at alone
  split at alone
  · cases alone
  · rename_i yield b run
    cases alone
    have length : (freshValues f.name 0 op.sig.argTypes).length = (lowerAll ps).length := by
      rw [freshValues_length, lowerAll_length, args.length_eq, lowersArgs.length_eq]
    obtain ⟨E₀, bound⟩ := Binding.bind_exists (Binding.empty : Env F) length
    have below : Env.Below E₀ op.sig.argTypes.length := by
      refine Env.Below.bind (n := 0) (fun v x h => by cases h) bound (Nat.zero_le _) fun v hv => ?_
      exact Nat.zero_add op.sig.argTypes.length ▸ (freshValues_within _ _ _ v hv).2.2
    have computes : Computes E₀ (freshValues f.name 0 op.sig.argTypes) ps sig.1 := by
      refine ⟨Binding.bind_mapM bound (freshValues_nodup _ _ _), args, ?_⟩
      rw [HasType.all, freshValues_types]
      exact lowersArgs
    obtain ⟨new, E', ws, ops, exec, _, _, _, qs, rfl, done⟩ := lowerFunctionBody_runs
      calls types binders computes consts params eval _ _ _ run below
    rw [List.nil_append] at ops
    exact ⟨_, qs, ws, rfl, rfl, done.types, execBlock_args bound (ops ▸ exec) done.values⟩

theorem find_loweredAlone (distinct : (prog.funs.map FunDef.name).Nodup) {module : List FuncOp}
    (perm : module.Perm (loweredAlone cfg prog)) (member : f ∈ prog.funs) {func : FuncOp}
    (alone : lowerAlone cfg prog f = .ok (some func)) :
    module.find? (fun g => g.sig.name = f.name) = some func := by
  have listed : func ∈ module := perm.mem_iff.mpr (mem_loweredAlone.mpr ⟨f, member, alone⟩)
  have name := (lowerAlone_name alone).2
  have nodup : (module.map fun g => g.sig.name).Nodup :=
    (perm.map fun g : FuncOp => g.sig.name).nodup_iff.mpr (distinct.sublist loweredAlone_names)
  cases found : module.find? fun g => g.sig.name = f.name with
  | none => simpa [name] using List.find?_eq_none.mp found func listed
  | some g =>
    have name' : g.sig.name = f.name := by simpa using List.find?_some found
    rw [List.inj_on_of_nodup_map nodup (List.mem_of_find?_eq_some found) listed
      (name'.trans name.symm)]

/-- Calls into the module and applications of the functions agree to every depth. -/
theorem callFunc_agrees (wellTyped : WellTyped prog) {module : List FuncOp}
    (perm : module.Perm (loweredAlone cfg prog)) (M : Machine F) (fuel : Nat) :
    CallsAgree ⟨M, callFunc M module fuel⟩ prog (evalFunction M.toFloatOps prog fuel) := by
  induction fuel with
  | zero =>
    intro fname sig h ps outs types result
    cases result
  | succ fuel ih =>
    intro fname sig h ps outs args result
    rw [evalFunction] at result
    obtain ⟨f, found, result⟩ := Option.bind_eq_some_iff.mp result
    obtain ⟨ρ, consts, result⟩ := Option.bind_eq_some_iff.mp result
    obtain ⟨ρ', params, eval⟩ := Option.bind_eq_some_iff.mp result
    have member := List.mem_of_find?_eq_some found
    have name : f.name = fname := by simpa using List.find?_some found
    subst name
    obtain ⟨sig', typed⟩ := Option.isSome_iff_exists.mp (wellTyped.functions f member)
    obtain ⟨Γ, Γ', types⟩ := typeFunction_types wellTyped.names member typed
    cases h.symm.trans types.scalars
    have binders := wellTyped.binders f member
    obtain ⟨func, alone⟩ := lowerAlone_accepts types cfg wellTyped.names member binders
    obtain ⟨body, qs, ws, hbody, rfl, hqs, exec⟩ := lowerAlone_runs ih types wellTyped.names member
      binders alone args consts params eval
    refine ⟨qs, rfl, hqs, ?_⟩
    simp only [callFunc, find_loweredAlone wellTyped.names perm member alone, Option.bind_eq_bind,
      Option.bind_some, hbody]
    rw [exec]
    rfl

end Calls

/-- The compiler accepts a program of the sequential part that has types, and calling a
function of the module on scalars computes what the function of the program does. -/
theorem compile_preserves (wellTyped : WellTyped prog) (cfg : Config) {depth : Nat}
    (deep : prog.funs.length < depth) : ∃ module, compile cfg prog depth = .ok module ∧
      ∀ (M : Machine F) (fuel : Nat), ∀ f ∈ prog.funs, ∀ sig, typeFunction prog f = some sig →
        ∀ (args : List (PVal F)) (outs : List (FVal F)), List.Forall₂ PVal.HasType args sig.1 →
          evalFunction M.toFloatOps prog fuel f.name (args.map .prim) = some outs →
          ∃ results : List (PVal F), outs = results.map .prim ∧
            List.Forall₂ PVal.HasType results sig.2 ∧
            callFunc M module fuel f.name (lowerAll args) = some (lowerAll results) := by
  have all : ∀ f ∈ prog.funs, ∃ func, lowerAlone cfg prog f = .ok (some func) := by
    intro f member
    obtain ⟨sig, typed⟩ := Option.isSome_iff_exists.mp (wellTyped.functions f member)
    obtain ⟨Γ, Γ', types⟩ := typeFunction_types wellTyped.names member typed
    exact lowerAlone_accepts types cfg wellTyped.names member (wellTyped.binders f member)
  have same : Reordered prog prog := .of_perm wellTyped.names (.refl _)
  have whole : (∃ module, compile cfg prog depth = .ok module ∧ _) ∨ _ :=
    compile_reordered wellTyped.names same deep
  rcases whole with ⟨module, run, perm, _, _⟩ | ⟨e, _, f, member, fails⟩
  · refine ⟨module, run, fun M fuel f member sig typed args outs types result => ?_⟩
    obtain ⟨Γ, Γ', known⟩ := typeFunction_types wellTyped.names member typed
    exact callFunc_agrees wellTyped perm M fuel f.name sig known.scalars args outs types result
  · obtain ⟨func, alone⟩ := all f member
    cases alone.symm.trans fails

theorem compile_preserves_parity : ∃ module, compile releaseConfig parityProg 4 = .ok module ∧
    callFunc unitMachine module 8 "main" [.scalar (.int 64 5)] = some [.scalar (.int 64 4)] := by
  have wellTyped : WellTyped parityProg :=
    ⟨by decide +kernel, by decide +kernel, by decide +kernel⟩
  obtain ⟨module, run, calls⟩ :=
    compile_preserves (F := Unit) wellTyped releaseConfig (show 3 < 4 by decide)
  have typed : typeFunction parityProg (parityProg.funs.getLast (by decide)) =
      some ([.int .int64], [.int .int64]) := by decide +kernel
  have types : List.Forall₂ (PVal.HasType (F := Unit)) [.int .int64 5] [.int .int64] :=
    .cons rfl .nil
  obtain ⟨results, eq, _, call⟩ := calls unitMachine 8 _ (List.getLast_mem _) _ typed
    [.int .int64 5] [.prim (.int .int64 4)] types rfl
  refine ⟨module, run, ?_⟩
  cases results with
  | nil => cases eq
  | cons p ps =>
    obtain ⟨first, rest⟩ := List.cons.inj eq
    cases first
    cases List.map_eq_nil_iff.mp rest.symm
    exact call

end FutharkMlir
