import FutharkMlir.Compiler.Function
import FutharkMlir.Lib.Except
import FutharkMlir.Scoping.Expressions

namespace FutharkMlir

mutual

/-- The names an expression leaves in the environment it was lowered in. -/
def Exp.leaks : Exp → List VName
  | .ite _ thenBody elseBody _ => thenBody.leaks ++ elseBody.leaks
  | _ => []

def Body.leaks : Body → List VName
  | .mk stms _ => stmsLeaks stms

def stmsLeaks : List Stm → List VName
  | [] => []
  | .mk pat exp :: rest => exp.leaks ++ pat.map PatElem.name ++ stmsLeaks rest

end

mutual

theorem Exp.leaks_subset : ∀ exp : Exp, exp.leaks ⊆ exp.binders
  | .ite _ thenBody elseBody _ => by
    rw [Exp.leaks, Exp.binders]
    intro x hx
    rcases List.mem_append.mp hx with first | second
    · exact List.mem_append_left _ (thenBody.leaks_subset first)
    · exact List.mem_append_right _ (elseBody.leaks_subset second)
  | .basicOp _ | .subExp _ | .apply _ _ _ | .loop _ _ _ | .hostOp _ => by simp [Exp.leaks]

theorem Body.leaks_subset : ∀ body : Body, body.leaks ⊆ body.binders
  | .mk stms _ => by
    rw [Body.leaks, Body.binders]
    exact stmsLeaks_subset stms

theorem stmsLeaks_subset : ∀ stms : List Stm, stmsLeaks stms ⊆ stmsBinders stms
  | [] => by simp [stmsLeaks]
  | .mk pat exp :: rest => by
    rw [stmsLeaks, stmsBinders]
    intro x hx
    rcases List.mem_append.mp hx with first | later
    · rcases List.mem_append.mp first with leak | bound
      · exact List.mem_append_left _ (List.mem_append_right _ (exp.leaks_subset leak))
      · exact List.mem_append_left _ (List.mem_append_left _ bound)
    · exact List.mem_append_right _ (stmsLeaks_subset rest later)

end

/-- Exactly these names are bound anew. -/
structure Rebinds (names : List VName) (c c' : Ctx) : Prop where
  kept : ∀ x, x ∉ names → c' x = c x
  bound : ∀ x ∈ names, c' x ≠ none

namespace Rebinds

variable {xs ys : List VName} {c c' c'' : Ctx}

theorem refl (c : Ctx) : Rebinds [] c c := ⟨fun _ _ => rfl, by simp⟩

theorem trans (h : Rebinds xs c c') (k : Rebinds ys c' c'') : Rebinds (xs ++ ys) c c'' := by
  refine ⟨fun x hx => ?_, fun x hx => ?_⟩
  · rw [List.mem_append, not_or] at hx
    rw [k.kept x hx.2, h.kept x hx.1]
  · by_cases later : x ∈ ys
    · exact k.bound x later
    · rw [k.kept x later]
      exact h.bound x ((List.mem_append.mp hx).resolve_right later)

theorem insertAll (c : Ctx) (ps : List (VName × Value)) :
    Rebinds (ps.map Prod.fst) c (c.insertAll ps) := by
  refine ⟨fun x hx => Ctx.insertAll_of_not_mem hx, ?_⟩
  induction ps generalizing c with
  | nil => simp
  | cons p ps ih =>
    intro x hx
    by_cases later : x ∈ ps.map Prod.fst
    · exact ih (c.insert p.1 p.2) x later
    · rw [List.map_cons, List.mem_cons] at hx
      rw [Ctx.insertAll, Ctx.insertAll_of_not_mem later, hx.resolve_right later, Ctx.insert_self]
      exact Option.some_ne_none p.2

theorem frame (h : Rebinds xs c c') :
    (xs = [] → c' = c) ∧ (c' = c → ∀ x ∈ xs, c x ≠ none) := by
  refine ⟨fun none => ?_, fun same x hx => ?_⟩
  · funext x
    exact h.kept x (by simp [none])
  · rw [← same]
    exact h.bound x hx

end Rebinds

section Runs

variable {α : Type}

theorem Lower.liftExcept_returns (x : Except Err α) :
    (liftM x : Lower α).Returns fun a => x = .ok a := by
  intro b a b' run
  rw [Lower.run_liftExcept] at run
  cases x with
  | error e => cases run
  | ok a =>
    cases run
    rfl

theorem Lower.lift_returns {m : Emit α} {Q : α → Prop} (hm : m.Returns Q) :
    (liftM m : Lower α).Returns Q := by
  intro b a b' run
  change (Lower.ofEmit m).run b = _ at run
  simp only [Lower.ofEmit] at run
  split at run
  · rename_i ip hrun
    cases run
    exact hm b.ip a ip hrun
  · cases run

theorem Lower.recording_returns {stm : Stm} {ctx : Ctx} {m : Lower (List Value × Ctx)}
    {Q : List Value × Ctx → Prop} (hm : m.Returns Q) : (Lower.recording stm ctx m).Returns Q := by
  intro b p b' run
  simp only [Lower.recording] at run
  split at run
  · rename_i values after inner hrun
    cases run
    exact hm b _ inner hrun
  · cases run

theorem Lower.inBlock_returns {argTys : List MlirTy}
    {body : List Value → Lower (List Value × α)} {Q : α → Prop}
    (h : ∀ args, (body args).Returns fun p => Q p.2) :
    (Lower.inBlock argTys body).Returns fun p => Q p.2 := by
  intro b p b' run
  simp only [Lower.inBlock] at run
  split at run
  · rename_i yield a inner hrun
    cases run
    exact h _ _ _ inner hrun
  · cases run

end Runs

section Syntax

variable (cfg : Config) (prog : Prog) (lf : FunDef → Lower Callee)

mutual

theorem lowerStms_rebinds : ∀ (stms : List Stm) (ctx : Ctx),
    (lowerStms cfg prog lf stms ctx).Returns fun c => Rebinds (stmsLeaks stms) ctx c
  | [], ctx => by
    unfold lowerStms
    exact .pure (.refl ctx)
  | .mk pat exp :: rest, ctx => by
    unfold lowerStms
    refine .bind (lowerStm_rebinds (.mk pat exp) ctx) fun c hc => ?_
    intro b d b' run
    exact hc.trans (lowerStms_rebinds rest c b d b' run)

theorem lowerStm_rebinds : ∀ (stm : Stm) (ctx : Ctx),
    (lowerStm cfg prog lf stm ctx).Returns fun c =>
      Rebinds (stm.exp.leaks ++ stm.patNames) ctx c
  | .mk pat exp, ctx => by
    unfold lowerStm
    refine .bind (Lower.recording_returns (lowerExp_rebinds exp ctx)) fun p hp => ?_
    refine .bind (Lower.liftExcept_returns _) fun pairs zip => .pure ?_
    have names : (pairs.map fun p => (p.1.name, p.2)).map Prod.fst = pat.map PatElem.name := by
      rw [← (zipEqual_fst cfg zip).2, List.map_map, List.map_map]
      rfl
    have rebinds := hp.trans (.insertAll p.2 (pairs.map fun p => (p.1.name, p.2)))
    rwa [names] at rebinds

theorem lowerBody_rebinds : ∀ (body : Body) (ctx : Ctx),
    (lowerBody cfg prog lf body ctx).Returns fun p => Rebinds body.leaks ctx p.2
  | .mk stms result, ctx => by
    unfold lowerBody
    refine .bind (lowerStms_rebinds stms ctx) fun c hc => ?_
    exact .bind (.any _) fun _ _ => .pure hc

theorem lowerExp_rebinds : ∀ (exp : Exp) (ctx : Ctx),
    (lowerExp cfg prog lf exp ctx).Returns fun p => Rebinds exp.leaks ctx p.2
  | .basicOp op, ctx => by
    unfold lowerExp
    exact .bind (.any _) fun _ _ => .pure (.refl ctx)
  | .subExp se, ctx => by
    unfold lowerExp
    exact .bind (.any _) fun _ _ => .pure (.refl ctx)
  | .apply fname args retTypes, ctx => by
    unfold lowerExp
    exact .bind (.any _) fun _ _ => .pure (.refl ctx)
  | .ite cond thenBody elseBody ret, ctx => by
    unfold lowerExp
    rw [Exp.leaks]
    refine .bind (.any _) fun c _ => ?_
    refine .bind (Lower.inBlock_returns fun _ => lowerBody_rebinds thenBody ctx) fun p hp => ?_
    refine .bind (Lower.inBlock_returns fun _ => lowerBody_rebinds elseBody p.2) fun q hq => ?_
    exact .bind (.any _) fun _ _ => .pure (hp.trans hq)
  | .loop merge form body, ctx => by
    unfold lowerExp
    exact .bind (.any _) fun _ _ => .pure (.refl ctx)
  | .hostOp op, ctx => by
    unfold lowerExp
    exact .bind (.any _) fun _ _ => .pure (.refl ctx)

end

/-- Lowering an expression keeps the environment where no branch binds a name, and a name
that a branch binds is bound afterwards. The statement and the branches follow. -/
theorem lowering_frame :
    (∀ (exp : Exp) (ctx ctx' : Ctx) (vs : List Value) (b b' : Builder),
      (lowerExp cfg prog lf exp ctx).run b = .ok ((vs, ctx'), b') →
      (exp.leaks = [] → ctx' = ctx) ∧ (ctx' = ctx → ∀ x ∈ exp.leaks, ctx x ≠ none)) ∧
    (∀ (stm : Stm) (ctx ctx' : Ctx) (b b' : Builder),
      (lowerStm cfg prog lf stm ctx).run b = .ok (ctx', b') →
      (stm.exp.leaks = [] → ∀ x ∉ stm.patNames, ctx' x = ctx x) ∧
      ((∀ x ∉ stm.patNames, ctx' x = ctx x) →
        ∀ x ∈ stm.exp.leaks, x ∉ stm.patNames → ctx x ≠ none)) ∧
    (∀ (thenBody : Body) (ctx ctx' : Ctx) (vs : List Value) (b b' : Builder),
      (lowerBody cfg prog lf thenBody ctx).run b = .ok ((vs, ctx'), b') →
      (thenBody.leaks = [] → ctx' = ctx) ∧
      (ctx' = ctx → ∀ x ∈ thenBody.leaks, ctx x ≠ none)) := by
  refine ⟨?exp, ?stm, ?body⟩
  case exp =>
    intro exp ctx ctx' vs b b' run
    exact (lowerExp_rebinds cfg prog lf exp ctx b _ b' run).frame
  case stm =>
    intro stm ctx ctx' b b' run
    have rebinds := lowerStm_rebinds cfg prog lf stm ctx b ctx' b' run
    refine ⟨fun none x outside => rebinds.kept x ?_, fun same x leaked outside => ?_⟩
    · rw [none, List.nil_append]
      exact outside
    · rw [← same x outside]
      exact rebinds.bound x (List.mem_append_left _ leaked)
  case body =>
    intro thenBody ctx ctx' vs b b' run
    exact (lowerBody_rebinds cfg prog lf thenBody ctx b _ b' run).frame

end Syntax

section Examples

/-- An `if` in a branch of another, none of whose branches names anything. -/
def nestedIf : Exp :=
  .ite (.const (.bool true))
    (.mk [.mk [] (.ite (.const (.bool false)) (.mk [] []) (.mk [] []) [])] [.var "x"])
    (.mk [] [.const (.int ⟨.int64, 2⟩)]) [.prim (.int .int64)]

def oneName : Ctx := Ctx.empty.insert "x" { func := "f", id := 0, ty := .int 64 }

theorem lowering_frame_nested : ∃ vs ctx' b',
    (lowerExp releaseConfig ⟨[], []⟩ (fun _ => Lower.undefined) nestedIf oneName).run
      initialBuilder = .ok ((vs, ctx'), b') ∧ ctx' = oneName := by
  obtain ⟨⟨⟨vs, ctx'⟩, b'⟩, run⟩ := Except.exists_ok (x := (lowerExp releaseConfig ⟨[], []⟩
    (fun _ => Lower.undefined) nestedIf oneName).run initialBuilder) (by decide +kernel)
  exact ⟨vs, ctx', b', run, ((lowering_frame _ _ _).1 nestedIf oneName ctx' vs _ b' run).1 rfl⟩

def namedBranch : Exp :=
  .ite (.const (.bool true)) (.mk [.mk [⟨"y", .prim (.int .int64)⟩]
    (.subExp (.const (.int ⟨.int64, 1⟩)))] [.var "y"])
    (.mk [] [.const (.int ⟨.int64, 2⟩)]) [.prim (.int .int64)]

/-- The name is still in the environment after the `if`. -/
theorem lowerExp_leak : ¬ ∀ (cfg : Config) (prog : Prog) (lf : FunDef → Lower Callee) (exp : Exp)
    (ctx ctx' : Ctx) (vs : List Value) (b b' : Builder),
    (lowerExp cfg prog lf exp ctx).run b = .ok ((vs, ctx'), b') → ctx' = ctx := by
  intro claim
  obtain ⟨⟨⟨vs, ctx'⟩, b'⟩, run⟩ := Except.exists_ok (x := (lowerExp releaseConfig ⟨[], []⟩
    (fun _ => Lower.undefined) namedBranch Ctx.empty).run initialBuilder) (by decide +kernel)
  have rebinds := lowerExp_rebinds releaseConfig ⟨[], []⟩ _ namedBranch Ctx.empty _ _ _ run
  have same := claim _ _ _ _ _ _ _ _ _ run
  exact rebinds.bound "y" (by decide) (by rw [same]; rfl)

end Examples

end FutharkMlir
