import FutharkMlir.Programs.Meaning

namespace FutharkMlir

open Option (Sub)

variable {F : Type} (fl : FloatOps F) {call call' : String → List (FVal F) → Option (List (FVal F))}

/-- Every application that has results has the same ones in the second meaning. -/
def CallsSub (call call' : String → List (FVal F) → Option (List (FVal F))) : Prop :=
  ∀ name vs, Sub (call name vs) (call' name vs)

mutual

theorem evalStms_sub (calls : CallsSub call call') : ∀ (stms : List Stm) (ρ : Store F),
    Sub (evalStms fl call stms ρ) (evalStms fl call' stms ρ)
  | [], ρ => .refl _
  | stm :: rest, ρ => by
    rw [evalStms, evalStms]
    exact .bind (evalStm_sub calls stm ρ) fun ρ => evalStms_sub calls rest ρ

theorem evalStm_sub (calls : CallsSub call call') : ∀ (stm : Stm) (ρ : Store F),
    Sub (evalStm fl call stm ρ) (evalStm fl call' stm ρ)
  | .mk pat exp, ρ => by
    rw [evalStm, evalStm]
    exact .bind (evalExp_sub calls exp ρ) fun _ => .refl _

theorem evalBody_sub (calls : CallsSub call call') : ∀ (body : Body) (ρ : Store F),
    Sub (evalBody fl call body ρ) (evalBody fl call' body ρ)
  | .mk stms result, ρ => by
    rw [evalBody, evalBody]
    exact .bind (evalStms_sub calls stms ρ) fun _ => .refl _

theorem evalExp_sub (calls : CallsSub call call') : ∀ (exp : Exp) (ρ : Store F),
    Sub (evalExp fl call exp ρ) (evalExp fl call' exp ρ)
  | .basicOp _, ρ => by
    rw [evalExp, evalExp]
    exact .refl _
  | .subExp _, ρ => by
    rw [evalExp, evalExp]
    exact .refl _
  | .apply fname args _, ρ => by
    rw [evalExp, evalExp]
    exact .bind (.refl _) fun vs => calls fname vs
  | .ite cond thenBody elseBody _, ρ => by
    rw [evalExp, evalExp]
    refine .bind (.refl _) fun p => ?_
    split
    · exact evalBody_sub calls thenBody ρ
    · exact evalBody_sub calls elseBody ρ
    · exact .refl _
  | .loop merge (.forLoop i t bound) body, ρ => by
    rw [evalExp, evalExp]
    refine .bind (.refl _) fun inits => .bind (.refl _) fun n => ?_
    exact .foldlM (fun accs k => .bind (.refl _) fun ρ => evalBody_sub calls body ρ) _ _
  | .loop _ (.whileLoop _) _, ρ => by
    rw [evalExp, evalExp]
    exact .refl _
  | .hostOp _, ρ => by
    rw [evalExp, evalExp]
    exact .refl _

end

section Kernels

variable (calls : CallsSub call call')

include calls

variable (space : SegSpace) (bounds : List (IntType × Nat)) (kernel : Body) (params : List Param)
  (body : Body) (ρ : Store F)

theorem evalKernel_sub (p : List Nat) :
    Sub (evalKernel fl call space bounds kernel ρ p) (evalKernel fl call' space bounds kernel ρ p) :=
  .bind (.refl _) fun ρ => evalBody_sub fl calls kernel ρ

theorem evalLambda_sub (args : List (FVal F)) :
    Sub (evalLambda fl call params body ρ args) (evalLambda fl call' params body ρ args) :=
  .bind (.refl _) fun ρ => evalBody_sub fl calls body ρ

theorem evalReduction_sub (neutral : List (FVal F)) (n : Nat) (o : List Nat) :
    Sub (evalReduction fl call space bounds kernel params body ρ neutral n o)
      (evalReduction fl call' space bounds kernel params body ρ neutral n o) :=
  .foldlM (fun accs _ => .bind (evalKernel_sub fl calls space bounds kernel ρ _) fun xs =>
    evalLambda_sub fl calls params body ρ (accs ++ xs)) _ _

theorem evalScan_sub (postParams : List Param) (postBody : Body) (neutral : List (FVal F))
    (o : List Nat) (j : Nat) :
    Sub (evalScan fl call space bounds kernel params body postParams postBody ρ neutral o j)
      (evalScan fl call' space bounds kernel params body postParams postBody ρ neutral o j) :=
  .bind (evalReduction_sub fl calls space bounds kernel params body ρ neutral (j + 1) o) fun accs =>
    evalLambda_sub fl calls postParams postBody ρ accs

end Kernels

theorem tabulate_sub {extents : List Nat} {n : Nat} {K K' : List Nat → Option (List (FVal F))}
    (h : ∀ p, Sub (K p) (K' p)) : Sub (tabulate extents n K) (tabulate extents n K') := by
  intro outs eq
  obtain ⟨rows, value⟩ := Option.ite_none_right_eq_some.mp eq
  cases value
  have same : ∀ p ∈ points extents, K' p = K p := by
    intro p member
    have row := List.all_eq_true.mp rows p member
    cases value : K p with
    | none => simp [isRow, value] at row
    | some vs => exact h p vs value
  have rows' : ((points extents).all fun p => isRow n (K' p)) = true := by
    rw [List.all_eq_true] at rows ⊢
    intro p member
    rw [same p member]
    exact rows p member
  rw [tabulate, if_pos rows', Option.some.injEq]
  refine List.map_congr_left fun k _ => ?_
  congr 2
  funext p
  split
  · next inside => rw [same p (mem_points.mpr inside)]
  · rfl

theorem computeSegOp_sub (calls : CallsSub call call') (op : SegOp) (ρ : Store F) :
    Sub (computeSegOp true fl call op ρ) (computeSegOp false fl call' op ρ) := by
  unfold computeSegOp
  split
  · refine .bind (.refl _) fun bounds => .guard ?_
    exact tabulate_sub fun p => evalKernel_sub fl calls _ _ _ _ p
  · refine .bind (.refl _) fun bounds => .bind (.refl _) fun neutrals => .guard ?_
    refine .bind (.refl _) fun n => ?_
    exact tabulate_sub fun o => evalReduction_sub fl calls _ _ _ _ _ _ _ _ o
  · refine .bind (.refl _) fun bounds => .bind (.refl _) fun neutrals => ?_
    exact tabulate_sub fun p => evalScan_sub fl calls _ _ _ _ _ _ _ _ _ _ _
  · exact .refl _

mutual

theorem computeStms_sub (calls : CallsSub call call') : ∀ (stms : List Stm) (ρ : Store F),
    Sub (computeStms true fl call stms ρ) (computeStms false fl call' stms ρ)
  | [], ρ => by
    rw [computeStms, computeStms]
    exact .refl _
  | stm :: rest, ρ => by
    rw [computeStms, computeStms]
    exact .bind (computeStm_sub calls stm ρ) fun ρ => computeStms_sub calls rest ρ

theorem computeStm_sub (calls : CallsSub call call') : ∀ (stm : Stm) (ρ : Store F),
    Sub (computeStm true fl call stm ρ) (computeStm false fl call' stm ρ)
  | .mk pat exp, ρ => by
    rw [computeStm, computeStm]
    exact .bind (computeExp_sub calls exp ρ) fun _ => .refl _

theorem computeBody_sub (calls : CallsSub call call') : ∀ (body : Body) (ρ : Store F),
    Sub (computeBody true fl call body ρ) (computeBody false fl call' body ρ)
  | .mk stms result, ρ => by
    rw [computeBody, computeBody]
    exact .bind (computeStms_sub calls stms ρ) fun _ => .refl _

theorem computeExp_sub (calls : CallsSub call call') : ∀ (exp : Exp) (ρ : Store F),
    Sub (computeExp true fl call exp ρ) (computeExp false fl call' exp ρ)
  | .basicOp _, ρ => by
    rw [computeExp, computeExp]
    exact .refl _
  | .subExp _, ρ => by
    rw [computeExp, computeExp]
    exact .refl _
  | .apply fname args _, ρ => by
    rw [computeExp, computeExp]
    exact .bind (.refl _) fun vs => .bind (calls fname vs) fun outs => .refl _
  | .ite cond thenBody elseBody _, ρ => by
    rw [computeExp, computeExp]
    refine .bind (.refl _) fun p => ?_
    split
    · exact computeBody_sub calls thenBody ρ
    · exact computeBody_sub calls elseBody ρ
    · exact .refl _
  | .loop merge (.forLoop i t bound) body, ρ => by
    rw [computeExp, computeExp]
    refine .bind (.refl _) fun inits => .bind (.refl _) fun n => .ite ?_
    refine .foldlM (fun accs k => .bind (.refl _) fun ρ => ?_) _ _
    exact .bind (computeBody_sub calls body ρ) fun outs => .refl _
  | .loop _ (.whileLoop _) _, ρ => by
    rw [computeExp, computeExp]
    exact .refl _
  | .hostOp (.segOp op), ρ => by
    rw [computeExp, computeExp]
    exact computeSegOp_sub fl calls op ρ
  | .hostOp .sizeOp, ρ => by
    rw [computeExp, computeExp]
    · exact .refl _
    · simp
    · simp
  | .hostOp .gpuBody, ρ => by
    rw [computeExp, computeExp]
    · exact .refl _
    · simp
    · simp

end

/-- A function that the strict meaning gives results has these results. -/
theorem computeFunction_sub (prog : Prog) (fuel : Nat) (name : String) (args : List (FVal F)) :
    Sub (computeFunction true fl prog fuel name args)
      (computeFunction false fl prog fuel name args) := by
  induction fuel generalizing name args with
  | zero =>
    rw [computeFunction]
    exact .none _
  | succ fuel ih =>
    rw [computeFunction, computeFunction]
    refine .bind (.refl _) fun f => .ite ?_
    refine .bind (computeStms_sub fl ih prog.consts _) fun ρ => .bind (.refl _) fun ρ => ?_
    exact computeBody_sub fl ih f.body ρ

end FutharkMlir
