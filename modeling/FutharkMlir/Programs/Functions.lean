import FutharkMlir.Programs.Bodies
import FutharkMlir.Programs.Strict
import FutharkMlir.Simulation.Functions

namespace FutharkMlir

variable {F : Type} {cfg : Config} {prog : Prog}

structure FunctionChecked (prog : Prog) (f : FunDef) (Γ Γ' : Types) (tys : List MlirTy) : Prop where
  consts : checkStms prog prog.consts Binding.empty = some Γ
  bound : Γ.bind (paramNames f.params) (f.params.map Param.ty) = some Γ'
  body : checkBody prog f.body Γ' = some tys
  declared : lowerTys f.retType = some tys

theorem checkFunction_checked {f : FunDef} (h : checkFunction prog f = true) :
    ∃ Γ Γ' tys, FunctionChecked prog f Γ Γ' tys := by
  unfold checkFunction at h
  obtain ⟨_, h⟩ := Option.isSome_iff_exists.mp h
  obtain ⟨Γ, consts, h⟩ := Option.bind_eq_some_iff.mp h
  obtain ⟨Γ', bound, h⟩ := Option.bind_eq_some_iff.mp h
  obtain ⟨tys, body, h⟩ := Option.bind_eq_some_iff.mp h
  exact ⟨Γ, Γ', tys, consts, bound, body, (Option.ite_none_right_eq_some.mp h).1.2⟩

section Calls

variable {f : FunDef} {Γ Γ' : Types} {params tys : List MlirTy} {W : World F}
  {call : String → List (FVal F) → Option (List (FVal F))} {vals outs : List (FVal F)}
  {ρ ρ' : Store F}

theorem lowerFunctionBody_done {point : List Nat} {E : Env F} (calls : CallsMatch W prog call)
    (checked : FunctionChecked prog f Γ Γ' tys)
    (hparams : lowerTys (f.params.map Param.ty) = some params) {args : List Value}
    (denoted : Denoted E args vals params)
    (consts : computeStms true W.machine.toFloatOps call prog.consts Binding.empty = some ρ)
    (bound : ρ.bind (paramNames f.params) vals = some ρ')
    (eval : computeBody true W.machine.toFloatOps call f.body ρ' = some outs) :
    Lower.Runs W point E (lowerFunctionBody cfg prog calleeOf f args) fun E' vs =>
      Denoted E' vs outs tys := by
  have start : Exact E Ctx.empty Binding.empty Binding.empty :=
    ⟨fun x ty h => (by cases h), fun x val h => (by cases h), fun x h => absurd rfl h⟩
  unfold lowerFunctionBody
  refine .bind (lowerStms_done calls prog.consts _ Γ _ _ ρ E checked.consts consts start)
    fun c E₁ sub₁ hc => ?_
  refine .bind (.liftExcept _) fun pairs E₂ sub₂ hpairs => ?_
  obtain ⟨rfl, hpairs⟩ := hpairs
  rw [zipEqual_eq cfg hpairs, zip_map_fst]
  have inside := hc.1.bind (denoted.mono sub₁) hparams checked.bound bound
  refine .bind (lowerBody_done calls f.body Γ' tys _ ρ' outs E₂ checked.body eval inside)
    fun p E₃ sub₃ hp => ?_
  exact .pure ⟨rfl, hp.1⟩

/-- The body of a function lowered alone computes what the function means, where the calls in it
do. -/
theorem lowerAlone_done (calls : CallsMatch W prog call) (lowered : f.lowered = true)
    (checked : FunctionChecked prog f Γ Γ' tys)
    (hparams : lowerTys (f.params.map Param.ty) = some params) {func : FuncOp}
    (alone : lowerAlone cfg prog f = .ok (some func)) {xs : List (MVal F)}
    (held : HeldAll params xs vals)
    (consts : computeStms true W.machine.toFloatOps call prog.consts Binding.empty = some ρ)
    (bound : ρ.bind (paramNames f.params) vals = some ρ')
    (eval : computeBody true W.machine.toFloatOps call f.body ρ' = some outs) :
    ∃ body ys ws, func.body = some body ∧ HeldAll tys ys outs ∧
      execBlock W.machine W.call body [] Binding.empty xs = some (ys, ws) := by
  rw [lowerAlone_eq cfg prog (FunDef.lowered_iff.mp lowered)] at alone
  split at alone
  · cases alone
  · rename_i op declared
    have sig : op.sig = ⟨f.name, params, tys⟩ :=
      Except.ok.inj ((declareFunction_ok declared).1.symm.trans
        (funcSig_of hparams checked.declared))
    dsimp only at alone
    split at alone
    · cases alone
    · rename_i yield b run
      cases alone
      rw [sig] at run
      have length : (freshValues f.name 0 params).length = xs.length := by
        rw [freshValues_length, held.length₁₂]
      obtain ⟨E₀, named⟩ := Binding.bind_exists (Binding.empty : Env F) length
      have below : Env.Below E₀ params.length := by
        refine Env.Below.bind (n := 0) (fun v x h => by cases h) named (Nat.zero_le _) fun v hv => ?_
        exact Nat.zero_add params.length ▸ (freshValues_within _ _ _ v hv).2.2
      have denoted : Denoted E₀ (freshValues f.name 0 params) vals params :=
        .of_held held (Binding.bind_mapM named (freshValues_nodup _ _ _)) (freshValues_types _ _ _)
      obtain ⟨new, E', ws, ops, exec, _, _, _, done⟩ := lowerFunctionBody_done
        calls checked hparams denoted consts bound eval _ _ _ run below
      rw [List.nil_append] at ops
      obtain ⟨ys, yields, held'⟩ := done.held
      refine ⟨_, ys, ws, rfl, held', ?_⟩
      rw [sig]
      exact execBlock_args named (ops ▸ exec) yields

/-- Calls into the module and applications of the functions match to every depth. -/
theorem callFunc_matches (checked : Checked prog) {module : List FuncOp}
    (perm : module.Perm (loweredAlone cfg prog))
    (all : ∀ f ∈ prog.funs, ∃ func, lowerAlone cfg prog f = .ok func) (M : Machine F) (fuel : Nat) :
    CallsMatch ⟨M, callFunc M module fuel⟩ prog (computeFunction true M.toFloatOps prog fuel) := by
  induction fuel with
  | zero =>
    refine ⟨fun f found vals outs result => ?_,
      fun f found lowered params rets hparams hrets xs vals outs held result => ?_⟩
    · cases result
    · cases result
  | succ fuel ih =>
    have parts : ∀ f, findFunction prog f.name = some f → ∀ vals outs,
        computeFunction true M.toFloatOps prog (fuel + 1) f.name vals = some outs →
        allFit (f.params.map Param.ty) vals = true ∧ ∃ ρ ρ',
          computeStms true M.toFloatOps (computeFunction true M.toFloatOps prog fuel) prog.consts
            Binding.empty = some ρ ∧ ρ.bind (paramNames f.params) vals = some ρ' ∧
          computeBody true M.toFloatOps (computeFunction true M.toFloatOps prog fuel) f.body ρ' =
            some outs := by
      intro f found vals outs result
      rw [computeFunction] at result
      obtain ⟨g, found', result⟩ := Option.bind_eq_some_iff.mp result
      cases found.symm.trans found'
      obtain ⟨guard, result⟩ := Option.ite_none_right_eq_some.mp result
      obtain ⟨ρ, consts, result⟩ := Option.bind_eq_some_iff.mp result
      obtain ⟨ρ', bound, eval⟩ := Option.bind_eq_some_iff.mp result
      exact ⟨(Bool.and_eq_true_iff.mp guard).2, ρ, ρ', consts, bound, eval⟩
    refine ⟨fun f found vals outs result => (parts f found vals outs result).1,
      fun f found lowered params rets hparams hrets xs vals outs held result => ?_⟩
    obtain ⟨_, ρ, ρ', consts, bound, eval⟩ := parts f found vals outs result
    have member := List.mem_of_find?_eq_some found
    obtain ⟨Γ, Γ', tys, known⟩ := checkFunction_checked (checked.functions f member lowered)
    cases hrets.symm.trans known.declared
    obtain ⟨func, alone⟩ := all f member
    obtain ⟨func, rfl⟩ := Option.isSome_iff_exists.mp ((lowerAlone_lowered alone).trans lowered)
    obtain ⟨body, ys, ws, hbody, held', exec⟩ :=
      lowerAlone_done ih lowered known hparams alone held consts bound eval
    refine ⟨ys, ?_, held'⟩
    simp only [callFunc, find_loweredAlone checked.names perm member alone, Option.bind_eq_bind,
      Option.bind_some, hbody]
    rw [exec]
    rfl

end Calls

/-- The module computes what the strict meaning gives. -/
theorem computes_strict (checked : Checked prog) {depth : Nat} (deep : prog.funs.length < depth)
    {module : List FuncOp} (run : compile cfg prog depth = .ok module) (M : Machine F) (fuel : Nat)
    {f : FunDef} (member : f ∈ prog.funs) (lowered : f.lowered = true) {sig : FuncSig}
    (hsig : funcSig f = .ok sig) {xs : List (MVal F)} {vals outs : List (FVal F)}
    (held : HeldAll sig.argTypes xs vals)
    (result : computeFunction true M.toFloatOps prog fuel f.name vals = some outs) :
    ∃ ys, callFunc M module fuel f.name xs = some ys ∧ HeldAll sig.retTypes ys outs := by
  have same : Reordered prog prog := .of_perm checked.names (.refl _)
  have whole : (∃ module, compile cfg prog depth = .ok module ∧ _) ∨ _ :=
    compile_reordered checked.names same deep
  rcases whole with ⟨module', run', perm, _, all⟩ | ⟨e, failed, _⟩
  · cases run.symm.trans run'
    simp only [funcSig, Except.bind_eq_ok, Except.pure_eq_ok] at hsig
    obtain ⟨rets, hrets, params, hparams, rfl⟩ := hsig
    exact (callFunc_matches checked perm all M fuel).agree f (findFunction_self checked.names member)
      lowered params rets (toOption_eq_some.mpr hparams) (toOption_eq_some.mpr hrets) xs vals outs
      held result
  · cases run.symm.trans failed

/-- Where the compiler accepts a program that has types, calling a function of the module on what
stands for the arguments computes what stands for the results: through its constants, statements,
branches, loops and applications, its slices, replications, iotas and literals of scalars, and
its maps, reductions and scans, as long as each kernel is filled by its loads. -/
theorem compile_computes (checked : Checked prog) {depth : Nat} (deep : prog.funs.length < depth)
    {module : List FuncOp} (run : compile cfg prog depth = .ok module) (M : Machine F) (fuel : Nat)
    {f : FunDef} (member : f ∈ prog.funs) (lowered : f.lowered = true) {sig : FuncSig}
    (hsig : funcSig f = .ok sig) {xs : List (MVal F)} {vals outs : List (FVal F)}
    (held : HeldAll sig.argTypes xs vals)
    (result : computeFunction false M.toFloatOps prog fuel f.name vals = some outs)
    (filled : KernelsFilled M.toFloatOps prog fuel f.name vals) :
    ∃ ys, callFunc M module fuel f.name xs = some ys ∧ HeldAll sig.retTypes ys outs := by
  obtain ⟨outs', strict⟩ := Option.isSome_iff_exists.mp filled
  have plain := computeFunction_sub M.toFloatOps prog fuel f.name vals outs' strict
  cases result.symm.trans plain
  exact computes_strict checked deep run M fuel member lowered hsig held strict

/-- A function that doubles the elements of an array, and one that applies it twice. -/
def fourfoldProg : Prog where
  consts := [.mk [⟨"two", .prim (.int .int64)⟩] (.subExp (.const (.createInt 2 64)))]
  funs :=
    [{ entry := false, attrs := [], name := "double", retType := [numbersTy], params
       body := .mk
        [.mk [⟨"ys", numbersTy⟩] (.hostOp (.segOp (.segMap .thread ⟨"flat", [("i", .var "n")]⟩
          [.prim (.int .int64)]
          (.mk
            [.mk [⟨"x", .prim (.int .int64)⟩] (.basicOp (.index "xs" [.fix (.var "i")])),
             .mk [⟨"y", .prim (.int .int64)⟩]
              (.basicOp (.binOp (.mul .int64 .wrap) (.var "x") (.var "two")))]
            [.var "y"]))))]
        [.var "ys"] },
     { entry := true, attrs := [], name := "main", retType := [numbersTy], params
       body := .mk
        [.mk [⟨"zs", numbersTy⟩] (.loop
          [(⟨"acc", numbersTy⟩, .var "xs")] (.forLoop "j" .int64 (.var "two"))
          (.mk [.mk [⟨"next", numbersTy⟩] (.apply "double" [.var "n", .var "acc"] [numbersTy])]
            [.var "next"]))]
        [.var "zs"] }]
where
  numbersTy : Ty := .array (.int .int64) [.var "n"]
  params : List Param := [⟨"n", .prim (.int .int64)⟩, ⟨"xs", numbersTy⟩]

theorem compile_computes_fourfold : ∃ module, compile releaseConfig fourfoldProg 3 = .ok module ∧
    ∃ t, callFunc unitMachine module 4 "main" [.scalar (.int 64 3), .tensor (countUp [3])] =
      some [.tensor t] ∧ t.shape = [3] ∧
      (points [3]).map t.get = [.int 64 0, .int 64 4, .int 64 8] := by
  have checked : Checked fourfoldProg := ⟨by decide +kernel, by decide +kernel⟩
  obtain ⟨module, run⟩ := Except.exists_ok (x := compile releaseConfig fourfoldProg 3)
    (by decide +kernel)
  have held : HeldAll (F := Unit) [.scalar (.int 64), .tensor [kDynamic] (.int 64)]
      [.scalar (.int 64 3), .tensor (countUp [3])] [.prim (.int .int64 3), .array (numbers 3)] :=
    .cons ⟨rfl, rfl⟩ (.cons ⟨countUp [3], [kDynamic], .int 64, rfl, rfl, by decide, rfl,
      fun p _ => ⟨rfl, rfl⟩⟩ .nil)
  obtain ⟨outs, result⟩ := Option.isSome_iff_exists.mp (show (computeFunction
    false unitMachine.toFloatOps fourfoldProg 4 "main" [.prim (.int .int64 3),
      .array (numbers 3)]).isSome = true by decide +kernel)
  have filled : KernelsFilled unitMachine.toFloatOps fourfoldProg 4 "main"
      [.prim (.int .int64 3), .array (numbers 3)] := by
    unfold KernelsFilled
    decide +kernel
  have known : (computeFunction false unitMachine.toFloatOps fourfoldProg 4 "main"
      [.prim (.int .int64 3), .array (numbers 3)]).map (fun outs => outs.map fun v =>
        (v.extents, (points [3]).map fun p => (v.element p).lower)) =
      some [([3], [.int 64 0, .int 64 4, .int 64 8])] := rfl
  rw [result, Option.map_some, Option.some.injEq] at known
  obtain ⟨ys, call, held'⟩ := compile_computes checked (show 2 < 3 by decide) run unitMachine 4
    (List.getLast_mem (by decide)) rfl (show funcSig _ = .ok ⟨"main", _, _⟩ from rfl) held result filled
  cases held' with
  | @cons _ _ val _ _ _ head tail =>
    cases tail
    obtain ⟨pair, _⟩ := List.cons.inj known
    obtain ⟨extents, elements⟩ := Prod.mk.inj pair
    cases val with
    | prim p => cases extents
    | array a =>
      obtain ⟨t, shape, elem, rfl, _, _, same, each⟩ := head
      refine ⟨module, run, t, call, same.trans extents, ?_⟩
      rw [← elements]
      refine List.map_congr_left fun p hp => ?_
      have inside : InBounds a.shape p := by
        rw [show a.shape = [3] from extents]
        exact mem_points.mp hp
      exact (each p inside).1

end FutharkMlir
