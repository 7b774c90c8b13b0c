import FutharkMlir.Functions.Order
import FutharkMlir.Scoping.Expressions

namespace FutharkMlir

mutual

/-- Every operand, here and in the regions inside, is a value of the scope: an argument of
an enclosing block or the result of an earlier operation of one, in this function. -/
def Op.visible (func : String) (scope : List Value) : Op → Bool
  | .mk _ operands _ regions =>
    (operands.all fun v => scope.contains v && v.func == func) && blocksVisible func scope regions

def Block.visible (func : String) (scope : List Value) : Block → Bool
  | .mk args ops yield =>
    opsVisible func (scope ++ args) ops &&
      yield.all fun v => (scope ++ args ++ ops.flatMap Op.results).contains v && v.func == func

def opsVisible (func : String) (scope : List Value) : List Op → Bool
  | [] => true
  | op :: rest => op.visible func scope && opsVisible func (scope ++ op.results) rest

def blocksVisible (func : String) (scope : List Value) : List Block → Bool
  | [] => true
  | block :: rest => block.visible func scope && blocksVisible func scope rest

end

def OpCode.callees : OpCode → List String
  | .call callee => [callee]
  | _ => []

mutual

def Op.callees : Op → List String
  | .mk code _ _ regions => code.callees ++ blocksCallees regions

def Block.callees : Block → List String
  | .mk _ ops _ => opsCallees ops

def opsCallees : List Op → List String
  | [] => []
  | op :: rest => op.callees ++ opsCallees rest

def blocksCallees : List Block → List String
  | [] => []
  | block :: rest => block.callees ++ blocksCallees rest

end

section Visible

theorem mem_defined_results {S : Set Value} {scope : List Value} {ops : List Op}
    (le : ∀ v ∈ S, v ∈ scope) {v : Value} (h : v ∈ defined S ops) :
    v ∈ scope ++ ops.flatMap Op.results := by
  rcases h with h | ⟨op, hop, hv⟩
  · exact List.mem_append_left _ (le v h)
  · exact List.mem_append_right _ (List.mem_flatMap.mpr ⟨op, hop, hv⟩)

mutual

theorem Op.Valid.visible : ∀ {op : Op} {R : Rules} {S : Set Value} {scope : List Value},
    op.Valid R S → (∀ v ∈ S, v ∈ scope) → (∀ v ∈ S, v.func = R.func) →
    op.visible R.func scope = true
  | .mk code operands results regions, R, S, scope, h, le, own => by
    rw [Op.Valid] at h
    obtain ⟨seen, _, _, inner⟩ := h
    have func : (R.inside code).func = R.func := by cases code <;> rfl
    rw [Op.visible, Bool.and_eq_true, List.all_eq_true]
    refine ⟨fun v hv => ?_, func ▸ blocksValid_visible inner le (func ▸ own)⟩
    simp [le v (seen v hv), own v (seen v hv)]

theorem Block.Valid.visible : ∀ {block : Block} {R : Rules} {S : Set Value} {scope : List Value},
    block.Valid R S → (∀ v ∈ S, v ∈ scope) → (∀ v ∈ S, v.func = R.func) →
    block.visible R.func scope = true
  | .mk args ops yield, R, S, scope, h, le, own => by
    rw [Block.Valid] at h
    obtain ⟨ours, inner, last⟩ := h
    have le' : ∀ v ∈ S ∪ {v | v ∈ args}, v ∈ scope ++ args := by
      intro v hv
      rcases hv with hv | hv
      · exact List.mem_append_left _ (le v hv)
      · exact List.mem_append_right _ hv
    have own' : ∀ v ∈ S ∪ {v | v ∈ args}, v.func = R.func := by
      intro v hv
      rcases hv with hv | hv
      · exact own v hv
      · exact ours v hv
    obtain ⟨visible, results⟩ := opsValid_visible inner le' own'
    rw [Block.visible, Bool.and_eq_true, List.all_eq_true]
    refine ⟨visible, fun v hv => ?_⟩
    have member := mem_defined_results le' (last v hv)
    have func : v.func = R.func := by
      rcases last v hv with hv | ⟨op, hop, hv⟩
      · exact own' v hv
      · exact results op hop v hv
    rw [Bool.and_eq_true]
    exact ⟨List.contains_iff_mem.mpr member, beq_iff_eq.mpr func⟩

theorem opsValid_visible : ∀ {ops : List Op} {R : Rules} {S : Set Value} {scope : List Value},
    opsValid R S ops → (∀ v ∈ S, v ∈ scope) → (∀ v ∈ S, v.func = R.func) →
    opsVisible R.func scope ops = true ∧ ∀ op ∈ ops, ∀ v ∈ op.results, v.func = R.func
  | [], R, S, scope, _, _, _ => by
    rw [opsVisible]
    exact ⟨rfl, by simp⟩
  | .mk code operands results regions :: rest, R, S, scope, h, le, own => by
    rw [opsValid] at h
    obtain ⟨first, later⟩ := h
    have ours : ∀ v ∈ results, v.func = R.func := by
      rw [Op.Valid] at first
      exact first.2.1
    have le' : ∀ v ∈ S ∪ {v | v ∈ results}, v ∈ scope ++ results := by
      intro v hv
      rcases hv with hv | hv
      · exact List.mem_append_left _ (le v hv)
      · exact List.mem_append_right _ hv
    have own' : ∀ v ∈ S ∪ {v | v ∈ results}, v.func = R.func := by
      intro v hv
      rcases hv with hv | hv
      · exact own v hv
      · exact ours v hv
    obtain ⟨visible, others⟩ := opsValid_visible later le' own'
    rw [opsVisible, Bool.and_eq_true]
    refine ⟨⟨first.visible le own, visible⟩, fun op hop v hv => ?_⟩
    rcases List.mem_cons.mp hop with rfl | hop
    · exact ours v hv
    · exact others op hop v hv

theorem blocksValid_visible : ∀ {blocks : List Block} {R : Rules} {S : Set Value}
    {scope : List Value}, blocksValid R S blocks → (∀ v ∈ S, v ∈ scope) →
    (∀ v ∈ S, v.func = R.func) → blocksVisible R.func scope blocks = true
  | [], R, S, scope, _, _, _ => by rw [blocksVisible]
  | block :: rest, R, S, scope, h, le, own => by
    rw [blocksValid] at h
    rw [blocksVisible, Bool.and_eq_true]
    exact ⟨h.1.visible le own, blocksValid_visible h.2 le own⟩

end

end Visible

section Callees

mutual

theorem Op.Valid.callees : ∀ {op : Op} {R : Rules} {S : Set Value}, op.Valid R S →
    ∀ c ∈ op.callees, R.call c
  | .mk code operands results regions, R, S, h, c, hc => by
    rw [Op.Valid] at h
    obtain ⟨_, _, allowed, inner⟩ := h
    have call : (R.inside code).call = R.call := by cases code <;> rfl
    rw [Op.callees, List.mem_append] at hc
    rcases hc with hc | hc
    · cases code with
      | call callee =>
        rw [List.mem_singleton.mp hc]
        exact allowed
      | _ => cases hc
    · exact call ▸ blocksValid_callees inner c hc

theorem Block.Valid.callees : ∀ {block : Block} {R : Rules} {S : Set Value}, block.Valid R S →
    ∀ c ∈ block.callees, R.call c
  | .mk args ops yield, R, S, h, c, hc => by
    rw [Block.Valid] at h
    rw [Block.callees] at hc
    exact opsValid_callees h.2.1 c hc

theorem opsValid_callees : ∀ {ops : List Op} {R : Rules} {S : Set Value}, opsValid R S ops →
    ∀ c ∈ opsCallees ops, R.call c
  | [], R, S, _, c, hc => by
    rw [opsCallees] at hc
    cases hc
  | op :: rest, R, S, h, c, hc => by
    rw [opsValid] at h
    rw [opsCallees, List.mem_append] at hc
    rcases hc with hc | hc
    · exact h.1.callees c hc
    · exact opsValid_callees h.2 c hc

theorem blocksValid_callees : ∀ {blocks : List Block} {R : Rules} {S : Set Value},
    blocksValid R S blocks → ∀ c ∈ blocksCallees blocks, R.call c
  | [], R, S, _, c, hc => by
    rw [blocksCallees] at hc
    cases hc
  | block :: rest, R, S, h, c, hc => by
    rw [blocksValid] at h
    rw [blocksCallees, List.mem_append] at hc
    rcases hc with hc | hc
    · exact h.1.callees c hc
    · exact blocksValid_callees h.2 c hc

end

end Callees

/-- The names a function uses and nothing in it or in the constants binds. -/
def functionFree (prog : Prog) (f : FunDef) : List VName :=
  stmsFree (without f.body.free (paramNames f.params)) prog.consts

def functionBinders (prog : Prog) (f : FunDef) : List VName :=
  stmsBinders prog.consts ++ paramNames f.params ++ f.body.binders

/-- Every name that is used is bound, and none is bound twice, in each function together
with the constants. -/
structure WellScoped (prog : Prog) : Prop where
  closed : ∀ f ∈ prog.funs, functionFree prog f = []
  distinct : ∀ f ∈ prog.funs, (functionBinders prog f).Nodup

variable {cfg : Config} {prog : Prog}

/-- What is used after the statements is free in them or bound by them. -/
theorem after_subset {after : List VName} (stms : List Stm) {x : VName} (hx : x ∈ after) :
    x ∈ stmsFree after stms ++ stmsBinders stms := by
  induction stms with
  | nil =>
    rw [stmsFree]
    exact List.mem_append_left _ hx
  | cons stm rest ih =>
    obtain ⟨pat, exp⟩ := stm
    simp only [stmsFree, stmsBinders, List.mem_append, mem_without]
    rcases List.mem_append.mp ih with h | h
    · by_cases bound : x ∈ pat.map PatElem.name
      · exact .inr (.inl (.inl bound))
      · exact .inl (.inr ⟨h, bound⟩)
    · exact .inr (.inr h)

theorem lowerFunctionBody_keeps {R : Rules} {S : Set Value} {lf : FunDef → Lower Callee}
    (lawful : R.Lawful cfg prog lf)
    (owned : ∀ sizes ty, R.owned sizes ty → R.empty sizes ty) {f : FunDef} {args : List Value}
    (seen : AllSeen S args)
    (wellScoped : (∀ v, v ∈ S) ∨ functionFree prog f = [] ∧ (functionBinders prog f).Nodup) :
    Lower.Keeps R S (lowerFunctionBody cfg prog lf f args) AllSeen := by
  have hyg : Hygienic S (functionFree prog f) (functionBinders prog f) := by
    refine wellScoped.imp_right fun h => ⟨h.2, fun x hx => ?_⟩
    rw [h.1] at hx
    cases hx
  have constsSub : (stmsBinders prog.consts).Sublist (functionBinders prog f) := by
    simp [functionBinders]
  unfold lowerFunctionBody
  refine .bind (lowerStms_keeps cfg prog.consts R S Ctx.empty _ lawful owned
    (fun x _ v hv => by cases hv) (hyg.inner (P := []) constsSub fun x hx => .inl hx))
    fun c S₁ le₁ hc => ?_
  refine .bind (.liftExcept _) fun pairs S₂ le₂ zip => ?_
  have names : (pairs.map fun p => (p.1.name, p.2)).map Prod.fst = paramNames f.params := by
    rw [← (zipEqual_fst cfg zip).2, List.map_map, paramNames, List.map_map]
    rfl
  have values : AllSeen S₂ ((pairs.map fun p => (p.1.name, p.2)).map Prod.snd) := by
    intro v hv
    rw [List.map_map] at hv
    obtain ⟨q, hq, rfl⟩ := List.mem_map.mp hv
    rw [zipEqual_eq cfg zip] at hq
    exact le₂ (le₁ (seen _ (List.of_mem_zip hq).2))
  have shown : Ctx.Shows (c.insertAll (pairs.map fun p => (p.1.name, p.2))) S₂
      (f.body.free ++ f.body.binders) := by
    rcases wellScoped with total | ⟨_, nodup⟩
    · exact fun _ _ v _ => le₂ (le₁ (total v))
    intro x hx v hv
    by_cases bound : x ∈ paramNames f.params
    · exact values v (Ctx.insertAll_mem hv (names ▸ bound))
    rw [Ctx.insertAll_of_not_mem (names ▸ bound)] at hv
    rcases List.mem_append.mp hx with hx | hx
    · exact le₂ (hc.1 x (mem_without.mpr ⟨hx, bound⟩) v hv)
    · have new : x ∉ stmsBinders prog.consts := fun old =>
        (List.nodup_append.mp nodup).2.2 x (List.mem_append_left _ old) x hx rfl
      rw [hc.2 x new] at hv
      cases hv
  have inner : Hygienic S₂ f.body.free f.body.binders := by
    rcases wellScoped with total | ⟨closed, nodup⟩
    · exact .inl fun v => le₂ (le₁ (total v))
    have disjoint := (List.nodup_append.mp nodup).2.2
    refine .inr ⟨nodup.sublist (List.sublist_append_right _ _), fun x hx hb => ?_⟩
    refine disjoint x (List.mem_append.mpr ?_) x hb rfl
    by_cases bound : x ∈ paramNames f.params
    · exact .inr bound
    have h := after_subset prog.consts (mem_without.mpr ⟨hx, bound⟩)
    rw [← functionFree, closed] at h
    exact .inl h
  refine .bind (lowerBody_keeps cfg f.body R S₂ _ lawful owned shown inner) ?_
  exact fun p S₃ _ hp => .pure fun _ le => hp.1.mono le

/-- The operands of every function whose body is there are visible. -/
def FuncsVisible (module : List FuncOp) : Prop :=
  ∀ F ∈ module, ∀ body, F.body = some body → body.visible F.sig.name [] = true

theorem FuncsVisible.append {module : List FuncOp} {F : FuncOp} (h : FuncsVisible module)
    (noBody : F.body = none) : FuncsVisible (module ++ [F]) := by
  intro G hG body hbody
  rcases List.mem_append.mp hG with hG | hG
  · exact h G hG body hbody
  · rw [List.mem_singleton.mp hG, noBody] at hbody
    cases hbody

theorem FuncsVisible.fillBody {module : List FuncOp} {name : String} {body : Block}
    {trace : List StmEvent} (h : FuncsVisible module) (visible : body.visible name [] = true) :
    FuncsVisible (fillBody module name body trace) := by
  intro G hG blk hblk
  obtain ⟨F, hF, rfl⟩ := List.mem_map.mp hG
  by_cases eq : F.sig.name = name
  · simp only [eq, if_true] at hblk ⊢
    cases hblk
    exact visible
  · simp only [eq, if_false] at hblk ⊢
    exact h F hF blk hblk

theorem lowerFunctionBody_visible (wellScoped : WellScoped prog) {f : FunDef}
    (member : f ∈ prog.funs) {lf : FunDef → Lower Callee}
    (callees : ∀ f ∈ prog.funs, ∀ b c b', (lf f).run b = .ok (c, b') →
      b'.ip = b.ip ∧ (FuncsVisible b.module → FuncsVisible b'.module))
    {n : Nat} {tys : List MlirTy}
    {b b' : Builder} {yield : List Value}
    (run : (lowerFunctionBody cfg prog lf f (freshValues f.name 0 tys)).run b = .ok (yield, b'))
    (start : b.ip = ⟨f.name, n, [], []⟩) (funcs : FuncsVisible b.module) :
    (Block.mk (freshValues f.name 0 tys) b'.ip.ops yield).visible f.name [] = true ∧
      FuncsVisible b'.module := by
  let R : Rules :=
    { func := f.name, call := fun _ => True, empty := fun _ _ => True, owned := fun _ _ => True,
      trace := b'.ip.trace, state := fun _ module => FuncsVisible module }
  have lawful : R.Lawful cfg prog lf := by
    refine ⟨fun _ _ _ _ _ _ _ => trivial, fun g hg b c b' run => ?_,
      fun _ _ _ _ _ _ _ _ _ _ _ h => h⟩
    obtain ⟨same, kept⟩ := callees g hg b c b' run
    exact ⟨same, kept, fun _ _ => trivial⟩
  obtain ⟨funcs', new, ops, valid, last⟩ := lowerFunctionBody_keeps (R := R)
    (S := {v | v ∈ freshValues f.name 0 tys}) lawful (fun _ _ h => h) (fun v hv => hv)
    (.inr ⟨wellScoped.closed f member, wellScoped.distinct f member⟩)
    {v | v ∈ freshValues f.name 0 tys} _ _ _ run (by rw [start]) List.prefix_rfl subset_rfl funcs
  refine ⟨?_, funcs'⟩
  have own : ∀ v ∈ freshValues f.name 0 tys, v.func = f.name := fun v hv =>
    (freshValues_within _ _ _ v hv).1
  have block : (Block.mk (freshValues f.name 0 tys) b'.ip.ops yield).Valid R ∅ := by
    rw [Block.Valid, Set.empty_union, ops, start, List.nil_append]
    exact ⟨own, valid, last⟩
  exact block.visible (fun v hv => by cases hv) (fun v hv => by cases hv)

theorem lowerFunction_keeps (wellScoped : WellScoped prog) (fuel : Nat) :
    ∀ f ∈ prog.funs, ∀ b c b', (lowerFunction cfg prog fuel f).run b = .ok (c, b') →
      b'.ip = b.ip ∧ (FuncsVisible b.module → FuncsVisible b'.module) := by
  induction fuel with
  | zero => exact fun f _ b c b' run => by cases run
  | succ fuel ih =>
    intro f member b c b' run
    cases boxed : maybeBlackBox f.attrs with
    | error e =>
      rw [lowerFunction, boxed] at run
      cases run
    | ok box =>
      cases box with
      | some box =>
        rw [lowerFunction, boxed] at run
        cases run
        exact ⟨rfl, id⟩
      | none =>
        cases found : b.functions.find? fun sig => sig.name = f.name with
        | some sig =>
          rw [lowerFunction, boxed] at run
          have run' : (Lower.functions >>= fun table => _).run b = .ok (c, b') := run
          simp only [Tracked.run_bind, Lower.run_functions, found] at run'
          cases run'
          exact ⟨rfl, id⟩
        | none =>
          cases declared : declareFunction f with
          | error e =>
            rw [lowerFunction, boxed, declared] at run
            have run' : (Lower.functions >>= fun table => _).run b = .ok (c, b') := run
            simp only [Tracked.run_bind, Lower.run_functions, found, Lower.run_liftExcept] at run'
            cases run'
          | ok func =>
            rw [lowerFunction_new cfg prog fuel b boxed found declared] at run
            dsimp only at run
            split at run
            · cases run
            · rename_i yield inner body
              cases run
              refine ⟨rfl, fun funcs => ?_⟩
              have start := funcs.append (declareFunction_ok declared).2.1
              obtain ⟨visible, funcs'⟩ := lowerFunctionBody_visible wellScoped member ih body rfl
                start
              exact funcs'.fillBody visible

theorem lowerFunctions_visible (wellScoped : WellScoped prog) {fuel : Nat} {fs : List FunDef}
    (members : ∀ f ∈ fs, f ∈ prog.funs) {b b' : Builder}
    (run : (lowerFunctions cfg prog fuel fs).run b = .ok ((), b')) (funcs : FuncsVisible b.module) :
    FuncsVisible b'.module := by
  induction fs generalizing b with
  | nil =>
    cases run
    exact funcs
  | cons f fs ih =>
    obtain ⟨c, mid, first, rest⟩ := Tracked.bind_ok.mp run
    have kept := lowerFunction_keeps wellScoped fuel f (members f List.mem_cons_self) b c mid first
    exact ih (fun g hg => members g (List.mem_cons_of_mem _ hg)) rest (kept.2 funcs)

/-- Two functions that call each other from branches, a loop that calls one of them, and
a top-level constant. -/
def parityProg : Prog where
  consts := [.mk [⟨"one", .prim (.int .int64)⟩] (.subExp (.const (.createInt 1 64)))]
  funs := [parity "even" "odd" 1, parity "odd" "even" 0,
    { entry := true, attrs := [], name := "main", retType := [.prim (.int .int64)]
      params := [⟨"n", .prim (.int .int64)⟩]
      body := .mk
        [.mk [⟨"sum", .prim (.int .int64)⟩] (.loop
          [(⟨"acc", .prim (.int .int64)⟩, .var "one")] (.forLoop "i" .int64 (.var "n"))
          (.mk
            [.mk [⟨"e", .prim (.int .int64)⟩]
              (.apply "even" [.var "i"] [.prim (.int .int64)]),
             .mk [⟨"next", .prim (.int .int64)⟩]
              (.basicOp (.binOp (.add .int64 .wrap) (.var "acc") (.var "e")))]
            [.var "next"]))]
        [.var "sum"] }]
where
  parity (name other : String) (atZero : Int) : FunDef :=
    { entry := false, attrs := [], name, retType := [.prim (.int .int64)]
      params := [⟨"n", .prim (.int .int64)⟩]
      body := .mk
        [.mk [⟨"zero", .prim .bool⟩] (.basicOp (.cmpOp (.eq (.int .int64)) (.var "n")
          (.const (.createInt 0 64)))),
         .mk [⟨"r", .prim (.int .int64)⟩] (.ite (.var "zero")
          (.mk [] [.const (.createInt atZero 64)])
          (.mk
            [.mk [⟨"m", .prim (.int .int64)⟩]
              (.basicOp (.binOp (.sub .int64 .wrap) (.var "n") (.var "one"))),
             .mk [⟨"s", .prim (.int .int64)⟩]
              (.apply other [.var "m"] [.prim (.int .int64)])]
            [.var "s"])
          [.prim (.int .int64)])]
        [.var "r"] }

end FutharkMlir
