import FutharkMlir.Lib.Except
import FutharkMlir.Functions.InStep
import Mathlib.Data.List.Perm.Basic
import Mathlib.Data.List.Nodup
import Mathlib.Data.List.Count

/-! The table of functions over a run of the compiler: a function enters it before its
body is lowered and is complete when its lowering returns, and what it then holds is what
lowering the function alone gives. -/
namespace FutharkMlir

variable (cfg : Config) (prog : Prog)

/-- What a caller learns of a function, without lowering it. -/
def calleeOf (f : FunDef) : Lower Callee := do
  match ← maybeBlackBox f.attrs with
  | some b => return .blackBox b
  | none =>
    let sig ← funcSig f
    return .func sig

/-- A function lowered alone: its callees are looked up and not lowered. -/
def emitFunction (f : FunDef) : Lower (Option FuncOp) := do
  match ← maybeBlackBox f.attrs with
  | some _ => return none
  | none =>
    let func ← declareFunction f
    let (body, trace) ← Lower.inFunction f.name func.sig.argTypes
      (lowerFunctionBody cfg prog calleeOf f)
    return some { func with body, trace }

def lowerAlone (f : FunDef) : Except Stop (Option FuncOp) :=
  match (emitFunction cfg prog f).run initialBuilder with
  | .ok (func, _) => .ok func
  | .error e => .error e

/-- The errors some function gives when it is lowered alone. -/
def FailsAlone (e : Err) : Prop := ∃ f ∈ prog.funs, lowerAlone cfg prog f = .error (.thrown e)

/-- The number of functions of the program that are not in the table yet. -/
def missing (functions : List FuncSig) : Nat :=
  prog.funs.countP fun f => decide (f.name ∉ functions.map FuncSig.name)

/-- The table while the bodies of the functions in `opened` are under construction. -/
structure Table (opened : List String) (functions : List FuncSig) (module : List FuncOp) :
    Prop where
  sigs : module.map FuncOp.sig = functions
  nodup : (functions.map FuncSig.name).Nodup
  entries : ∀ F ∈ module, ∃ f ∈ prog.funs, f.name = F.sig.name ∧
    maybeBlackBox f.attrs = .ok none ∧
    declareFunction f = .ok { F with body := none, trace := [] } ∧
    (f.name ∈ opened ∨ lowerAlone cfg prog f = .ok (some F))

structure Reordered (prog' : Prog) : Prop where
  consts : prog'.consts = prog.consts
  member : ∀ f, f ∈ prog'.funs ↔ f ∈ prog.funs
  found : ∀ x, findFunction prog' x = findFunction prog x

variable {cfg prog}

theorem funcSig_name {f : FunDef} {sig : FuncSig} (h : funcSig f = .ok sig) :
    sig.name = f.name := by
  simp only [funcSig, Except.bind_eq_ok, Except.pure_eq_ok] at h
  obtain ⟨retTypes, _, argTypes, _, rfl⟩ := h
  rfl

theorem declareFunction_ok {f : FunDef} {func : FuncOp} (h : declareFunction f = .ok func) :
    funcSig f = .ok func.sig ∧ func.body = none ∧ func.trace = [] := by
  simp only [declareFunction, Except.bind_eq_ok, Except.pure_eq_ok] at h
  obtain ⟨sig, hsig, sizeArgs, _, rfl⟩ := h
  exact ⟨hsig, rfl, rfl⟩

variable (cfg prog) in
/-- A function lowered alone is its declaration with the lowered body filled in. -/
theorem lowerAlone_eq {f : FunDef} (notBlackBox : maybeBlackBox f.attrs = .ok none) :
    lowerAlone cfg prog f = match declareFunction f with
      | .error e => .error (.thrown e)
      | .ok func =>
        let args := freshValues f.name 0 func.sig.argTypes
        match (lowerFunctionBody cfg prog calleeOf f args).run
            { initialBuilder with ip := ⟨f.name, func.sig.argTypes.length, [], []⟩ } with
        | .error e => .error e
        | .ok (yield, b) =>
          .ok (some { func with body := some (.mk args b.ip.ops yield), trace := b.ip.trace }) := by
  simp only [lowerAlone, emitFunction, notBlackBox, Lower.run_liftExcept, Tracked.run_bind,
    Except.map, Except.mapError, Lower.inFunction]
  cases declareFunction f with
  | error e => rfl
  | ok func =>
    dsimp only
    cases (lowerFunctionBody cfg prog calleeOf f (freshValues f.name 0 func.sig.argTypes)).run
      { initialBuilder with ip := ⟨f.name, func.sig.argTypes.length, [], []⟩ } <;> rfl

theorem Lower.run_functions (b : Builder) : Lower.functions.run b = .ok (b.functions, b) := rfl

theorem InStep.bindExcept {α β : Type} {I : List FuncSig → List FuncOp → Prop}
    {excused : Err → Prop} {x : Except Err α} {f g : α → Lower β}
    (h : ∀ a, x = .ok a → InStep I excused (f a) (g a)) :
    InStep I excused (liftM x >>= f) (liftM x >>= g) := by
  cases x with
  | error e => exact fun _ _ _ _ => .inr ⟨e, rfl, .inl rfl⟩
  | ok a => exact h a rfl

theorem missing_append {functions : List FuncSig} {sig : FuncSig} {f : FunDef}
    (member : f ∈ prog.funs) (name : sig.name = f.name)
    (new : f.name ∉ functions.map FuncSig.name) :
    missing prog (functions ++ [sig]) < missing prog functions := by
  unfold missing
  obtain ⟨xs, ys, split⟩ := List.append_of_mem member
  have le : ∀ zs : List FunDef,
      zs.countP (fun g => decide (g.name ∉ (functions ++ [sig]).map FuncSig.name)) ≤
        zs.countP fun g => decide (g.name ∉ functions.map FuncSig.name) := by
    intro zs
    refine List.countP_mono_left fun g _ h => ?_
    simp only [List.map_append, List.mem_append, not_or, decide_eq_true_eq] at h ⊢
    exact h.1
  rw [split, List.countP_append, List.countP_append, List.countP_cons, List.countP_cons]
  have before := le xs
  have after := le ys
  simp only [List.map_append, List.mem_append, List.map_cons, List.map_nil, List.mem_singleton,
    name, or_true, not_true, decide_false, new, not_false_iff, decide_true, if_true] at *
  simp only [Bool.false_eq_true, if_false]
  omega

variable (cfg prog) in
/-- A function that is new to the table is declared there, lowered, and filled in. -/
theorem lowerFunction_new {f : FunDef} (fuel : Nat) (b : Builder)
    (notBlackBox : maybeBlackBox f.attrs = .ok none)
    (new : b.functions.find? (fun sig => sig.name = f.name) = none) {func : FuncOp}
    (declared : declareFunction f = .ok func) :
    (lowerFunction cfg prog (fuel + 1) f).run b =
      let args := freshValues f.name 0 func.sig.argTypes
      match (lowerFunctionBody cfg prog (lowerFunction cfg prog fuel) f args).run
          { ip := ⟨f.name, func.sig.argTypes.length, [], []⟩
            functions := b.functions ++ [func.sig], module := b.module ++ [func] } with
      | .error e => .error e
      | .ok (yield, b') =>
        .ok (.func func.sig, { b' with
          ip := b.ip
          module := fillBody b'.module f.name (.mk args b'.ip.ops yield) b'.ip.trace }) := by
  unfold lowerFunction
  simp only [Tracked.run_bind, Lower.run_functions, Lower.run_liftExcept, notBlackBox, new, declared,
    Except.map, Except.mapError, Lower.register, Lower.inFunction]
  cases (lowerFunctionBody cfg prog (lowerFunction cfg prog fuel) f
    (freshValues f.name 0 func.sig.argTypes)).run
      { ip := ⟨f.name, func.sig.argTypes.length, [], []⟩
        functions := b.functions ++ [func.sig], module := b.module ++ [func] } <;> rfl

theorem Table.register {opened : List String} {functions : List FuncSig} {module : List FuncOp}
    (table : Table cfg prog opened functions module) {f : FunDef} (member : f ∈ prog.funs)
    (notBlackBox : maybeBlackBox f.attrs = .ok none) {func : FuncOp}
    (declared : declareFunction f = .ok func) (new : f.name ∉ functions.map FuncSig.name) :
    Table cfg prog (f.name :: opened) (functions ++ [func.sig]) (module ++ [func]) := by
  obtain ⟨hsig, noBody, noTrace⟩ := declareFunction_ok declared
  have name := funcSig_name hsig
  refine ⟨by simp [table.sigs], ?_, ?_⟩
  · simp only [List.map_append, List.map_cons, List.map_nil, name]
    exact List.nodup_append.mpr ⟨table.nodup, List.nodup_singleton _, fun a ha b hb => by
      rw [List.mem_singleton.mp hb]
      exact fun eq => new (eq ▸ ha)⟩
  · intro F hF
    rcases List.mem_append.mp hF with hF | hF
    · obtain ⟨g, hg, same, nb, decl, state⟩ := table.entries F hF
      exact ⟨g, hg, same, nb, decl, state.imp_left (List.mem_cons_of_mem _)⟩
    · rw [List.mem_singleton.mp hF]
      refine ⟨f, member, name.symm, notBlackBox, ?_, .inl List.mem_cons_self⟩
      rw [declared, ← noBody, ← noTrace]

section Lowering

variable (distinct : (prog.funs.map FunDef.name).Nodup)
include distinct

theorem same_function {f g : FunDef} (hf : f ∈ prog.funs) (hg : g ∈ prog.funs)
    (name : f.name = g.name) : f = g :=
  List.inj_on_of_nodup_map distinct hf hg name

/-- A function in the table is found there with its own signature. -/
theorem Table.find_sig {opened : List String} {functions : List FuncSig} {module : List FuncOp}
    (table : Table cfg prog opened functions module) {f : FunDef} (member : f ∈ prog.funs)
    {sig : FuncSig} (listed : sig ∈ functions) (name : sig.name = f.name) :
    funcSig f = .ok sig := by
  rw [← table.sigs] at listed
  obtain ⟨F, hF, rfl⟩ := List.mem_map.mp listed
  obtain ⟨g, hg, same, _, declared, _⟩ := table.entries F hF
  have eq : g = f := same_function distinct hg member (same.trans name)
  exact eq ▸ (declareFunction_ok declared).1

/-- The function whose body is filled in leaves the ones under construction. -/
theorem Table.complete {opened : List String} {functions : List FuncSig} {module : List FuncOp}
    {f : FunDef} (table : Table cfg prog (f.name :: opened) functions module)
    (member : f ∈ prog.funs) {func : FuncOp} (declared : declareFunction f = .ok func)
    {body : Block} {trace : List StmEvent}
    (alone : lowerAlone cfg prog f = .ok (some { func with body := some body, trace })) :
    Table cfg prog opened functions (fillBody module f.name body trace) := by
  refine ⟨?_, table.nodup, ?_⟩
  · rw [fillBody, List.map_map, ← table.sigs]
    refine List.map_congr_left fun F _ => ?_
    simp only [Function.comp_apply]
    split <;> rfl
  · intro F' hF'
    obtain ⟨F, hF, rfl⟩ := List.mem_map.mp hF'
    obtain ⟨g, hg, same, nb, decl, state⟩ := table.entries F hF
    by_cases name : F.sig.name = f.name
    · have eq : g = f := same_function distinct hg member (same.trans name)
      subst eq
      simp only [name, if_true]
      refine ⟨g, hg, rfl, nb, decl, .inr ?_⟩
      rw [alone]
      cases declared.symm.trans decl
      rfl
    · simp only [name, if_false]
      refine ⟨g, hg, same, nb, decl, state.imp_left fun h => ?_⟩
      rcases List.mem_cons.mp h with h | h
      · exact absurd (same.symm.trans h) name
      · exact h

/-- With enough depth for every function that is not in the table, lowering a function and
looking it up are one as far as its caller can tell. -/
theorem lowerFunction_inStep {prog' : Prog} (reordered : Reordered prog prog') (fuel : Nat)
    (opened : List String) {f : FunDef} (member : f ∈ prog.funs) :
    InStep (fun fs md => Table cfg prog opened fs md ∧ missing prog fs < fuel)
      (FailsAlone cfg prog) (lowerFunction cfg prog' fuel f) (calleeOf f) := by
  induction fuel generalizing opened f with
  | zero => exact fun b c table => absurd table.2 (Nat.not_lt_zero _)
  | succ fuel ih =>
    unfold lowerFunction calleeOf
    refine .bindExcept fun box boxed => ?_
    cases box with
    | some b => exact .pure _
    | none =>
      rintro b c ⟨table, enough⟩ same
      cases found : b.functions.find? fun sig => sig.name = f.name with
      | some sig =>
        have name : sig.name = f.name := by simpa using List.find?_some found
        have hsig := table.find_sig distinct member (List.mem_of_find?_eq_some found) name
        refine .inl ⟨.func sig, b, c, ?_, by rw [hsig]; rfl, ⟨table, enough⟩, same⟩
        simp only [Tracked.run_bind, Lower.run_functions, found]
        rfl
      | none =>
        have alone := lowerAlone_eq cfg prog boxed
        cases declared : declareFunction f with
        | error e =>
          refine .inr ⟨e, ?_, .inr ⟨f, member, by rw [alone, declared]⟩⟩
          simp only [Tracked.run_bind, Lower.run_functions, found, Lower.run_liftExcept]
          rfl
        | ok func =>
          have run := lowerFunction_new cfg prog' fuel b boxed found declared
          rw [lowerFunction, boxed, declared] at run
          have hsig := (declareFunction_ok declared).1
          have name := funcSig_name hsig
          have new : f.name ∉ b.functions.map FuncSig.name := by
            simpa using found
          have table' := table.register member boxed declared new
          have fewer : missing prog (b.functions ++ [func.sig]) < fuel :=
            lt_of_lt_of_le (missing_append member name new) (Nat.le_of_lt_succ enough)
          have body := lowerFunctionBody_inStep cfg reordered.found reordered.consts
            (fun g hg => ih (f.name :: opened) ((reordered.member g).mp hg)) f
            (freshValues f.name 0 func.sig.argTypes)
          rcases body
              { ip := ⟨f.name, func.sig.argTypes.length, [], []⟩
                functions := b.functions ++ [func.sig], module := b.module ++ [func] }
              { initialBuilder with ip := ⟨f.name, func.sig.argTypes.length, [], []⟩ }
              ⟨table', fewer⟩ rfl with
            ⟨yield, b', c', hm, hn, ⟨table'', enough'⟩, same'⟩ | ⟨e, hm, hn⟩
          · have complete : lowerAlone cfg prog f = .ok (some { func with
                body := some (.mk (freshValues f.name 0 func.sig.argTypes) b'.ip.ops yield)
                trace := b'.ip.trace }) := by
              rw [alone, declared, same']
              simp only [hn]
            simp only [hm] at run
            refine .inl ⟨_, _, c, run, ?_, ⟨table''.complete distinct member declared complete, ?_⟩,
              same⟩
            · rw [hsig]
              rfl
            · exact Nat.lt_succ_of_lt enough'
          · simp only [hm] at run
            refine .inr ⟨e, run, .inr ?_⟩
            rcases hn with hn | hn
            · refine ⟨f, member, ?_⟩
              rw [alone, declared]
              simp only [hn]
            · exact hn

end Lowering

end FutharkMlir
