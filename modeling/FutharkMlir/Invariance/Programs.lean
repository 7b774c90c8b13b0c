import FutharkMlir.Functions.Once
import FutharkMlir.Invariance.Expressions
import FutharkMlir.Kernels.Lengths

/-! What the module of a program does not depend on: the names of variables, assertions that
hold, and the bodies of other functions. -/
namespace FutharkMlir

/-- What is emitted of a function, without the record of its statements. -/
def FuncOp.untraced (F : FuncOp) : FuncOp := { F with trace := [] }

def emitted (cfg : Config) (prog : Prog) (fuel : Nat) : Option (List FuncOp) :=
  (compile cfg prog fuel).toOption.map (List.map FuncOp.untraced)

def SameTables (p q : List FuncSig × List FuncOp) : Prop :=
  q.1 = p.1 ∧ q.2.map FuncOp.untraced = p.2.map FuncOp.untraced

theorem fillBody_untraced (name : String) (body : Block) (trace : List StmEvent)
    (module : List FuncOp) : (fillBody module name body trace).map FuncOp.untraced =
      (module.map FuncOp.untraced).map fun F =>
        if F.sig.name = name then { F with body := some body } else F := by
  simp only [fillBody, List.map_map]
  congr 1
  funext F
  simp only [Function.comp_apply]
  split <;> simp_all [FuncOp.untraced]

variable {c : Change} {cfg cfg' : Config}

section Function

variable {T : List FuncSig × List FuncOp → List FuncSig × List FuncOp → Prop}

/-- A body is built from its start, whatever is being built around it. -/
theorem inFunction_alike (name : String) (argTys : List MlirTy)
    {f g : List Value → Lower (List Value)} (h : ∀ args, Lower.Alike c T Eq (f args) (g args)) :
    Lower.Alike c T (fun p q => p.1 = q.1) (Lower.inFunction name argTys f)
      (Lower.inFunction name argTys g) := by
  intro b b' same
  have agree := h (freshValues name 0 argTys) { b with ip := ⟨name, argTys.length, [], []⟩ }
    { b' with ip := ⟨name, argTys.length, [], []⟩ } ⟨⟨rfl, rfl, rfl⟩, same.table⟩
  simp only [Lower.inFunction]
  generalize (f _).run _ = x at agree ⊢
  generalize (g _).run _ = y at agree ⊢
  cases agree with
  | ok h =>
    obtain ⟨yields, inner⟩ := h
    refine .ok ⟨?_, same.ip, inner.table⟩
    rw [yields, inner.ip.ops]
  | error h => exact .error h
  | stopped h => exact .stopped h

theorem lowerFunctionBody_alike (builds : c.Builds cfg cfg') {prog prog' : Prog}
    {lf lf' : FunDef → Lower Callee} (linked : Linked c T prog prog' lf lf')
    (consts : prog'.consts = renameStms c.rename prog.consts) (f : FunDef) (args : List Value) :
    Lower.Alike c T Eq (lowerFunctionBody cfg prog lf f args)
      (lowerFunctionBody cfg' prog' lf' (f.rename c.rename) args) := by
  unfold lowerFunctionBody
  rw [consts]
  refine .bind (lowerStms_alike builds linked prog.consts _ _ .empty) fun _ _ outer => ?_
  refine .bind (.emit (.lift (zipEqual_renames builds Param.name (Param.rename c.rename)
    (fun _ => rfl) outer f.params args))) fun ps qs bound => ?_
  refine .bind (lowerBody_alike builds linked f.body _ _ bound) ?_
  rintro ⟨ret, _⟩ ⟨_, _⟩ ⟨rfl, _⟩
  exact .pure rfl

end Function

theorem functions_alike : Lower.Alike c SameTables Eq Lower.functions Lower.functions :=
  fun _ _ same => .ok ⟨same.table.1.symm, same⟩

theorem register_alike (F : FuncOp) :
    Lower.Alike c SameTables Eq (Lower.register F) (Lower.register F) := by
  intro b b' same
  refine .ok ⟨rfl, same.ip, ?_, ?_⟩
  · exact congrArg (· ++ [F.sig]) same.table.1
  · simp only [List.map_append, same.table.2]

theorem setBody_alike (name : String) (body : Block) (trace trace' : List StmEvent) :
    Lower.Alike c SameTables Eq (Lower.setBody name body trace)
      (Lower.setBody name body trace') := by
  intro b b' same
  refine .ok ⟨rfl, same.ip, same.table.1, ?_⟩
  simp only [fillBody_untraced, same.table.2]

section Build

variable (builds : c.Builds cfg cfg') (prog : Prog)

include builds

theorem lowerFunction_alike (fuel : Nat) (f : FunDef) :
    Lower.Alike c SameTables Eq (lowerFunction cfg prog fuel f)
      (lowerFunction cfg' (prog.rename c.rename) fuel (f.rename c.rename)) := by
  induction fuel generalizing f with
  | zero => exact .throw trivial
  | succ fuel ih =>
    have linked : Linked c SameTables prog (prog.rename c.rename) (lowerFunction cfg prog fuel)
        (lowerFunction cfg' (prog.rename c.rename) fuel) := by
      refine ⟨fun x => ?_⟩
      have found : findFunction (prog.rename c.rename) x =
          (findFunction prog x).map (FunDef.rename c.rename) := by
        rw [findFunction, findFunction, Prog.rename, List.find?_map]
        rfl
      rw [found]
      cases findFunction prog x with
      | none => exact .none
      | some g => exact .some (ih g)
    unfold lowerFunction
    rw [declareFunction_rename c.injective]
    refine .next (.emit (.except (maybeBlackBox f.attrs))) fun box => ?_
    cases box with
    | some b => exact .pure rfl
    | none =>
      refine .next functions_alike fun table => ?_
      have entry : (table.find? fun sig => sig.name = (f.rename c.rename).name) =
          table.find? fun sig => sig.name = f.name := rfl
      dsimp only
      rw [entry]
      cases table.find? fun sig => sig.name = f.name with
      | some sig =>
        dsimp only
        exact .pure rfl
      | none =>
        dsimp only
        refine .next (.emit (.except _)) fun func => .next (register_alike func) fun _ => ?_
        refine .bind (inFunction_alike f.name func.sig.argTypes
          (lowerFunctionBody_alike builds linked rfl f)) ?_
        rintro ⟨body, trace⟩ ⟨_, trace'⟩ rfl
        exact .next (setBody_alike f.name body trace trace') fun _ => .pure rfl

theorem lowerFunctions_alike (fuel : Nat) (fs : List FunDef) :
    Lower.Alike c SameTables Eq (lowerFunctions cfg prog fuel fs)
      (lowerFunctions cfg' (prog.rename c.rename) fuel (fs.map (FunDef.rename c.rename))) := by
  induction fs with
  | nil => exact .pure rfl
  | cons f rest ih => exact .next (lowerFunction_alike builds prog fuel f) fun _ => ih

theorem compile_agrees (fuel : Nat) :
    Agree c.Ends c.Halts (fun m m' => m.map FuncOp.untraced = m'.map FuncOp.untraced)
      (compile cfg prog fuel) (compile cfg' (prog.rename c.rename) fuel) := by
  have agree := lowerFunctions_alike builds prog fuel prog.funs initialBuilder initialBuilder
    ⟨⟨rfl, rfl, rfl⟩, rfl, rfl⟩
  simp only [compile, Prog.rename] at agree ⊢
  generalize Tracked.run _ initialBuilder = x at agree ⊢
  generalize Tracked.run _ initialBuilder = y at agree ⊢
  cases agree with
  | ok h => exact .ok h.2.table.2.symm
  | error h => exact .error h
  | stopped h => exact .stopped h

end Build

/-- With its assertions left in, the second build stops where the first does. -/
theorem Change.halts_of_strict (strict : ¬ c.lax) : c.Halts = fun _ => False := by
  funext stop
  cases stop with
  | thrown e => exact propext ⟨fun h => strict h.1, False.elim⟩
  | outOfFuel => rfl

/-- The module is the same under any names. -/
theorem compile_renamed {ρ : VName → VName} (injective : Function.Injective ρ) (cfg : Config)
    (prog : Prog) (fuel : Nat) : emitted cfg (prog.rename ρ) fuel = emitted cfg prog fuel := by
  have builds : (⟨ρ, injective, False⟩ : Change).Builds cfg cfg := ⟨rfl, .inl rfl⟩
  have agree := compile_agrees builds prog fuel
  rw [Change.halts_of_strict id] at agree
  exact agree.toOption.symm

/-- Assertions do nothing but stop a build. -/
theorem compile_release (cfg : Config) (prog : Prog) (fuel : Nat) :
    compile cfg prog fuel = .error (.thrown .assertion) ∨
      (compile cfg.release prog fuel).map (List.map FuncOp.untraced) =
        (compile cfg prog fuel).map (List.map FuncOp.untraced) := by
  have builds : (⟨id, Function.injective_id, True⟩ : Change).Builds cfg cfg.release :=
    ⟨rfl, .inr ⟨trivial, rfl⟩⟩
  have agree := compile_agrees builds prog fuel
  rw [Prog.rename_id] at agree
  generalize compile cfg prog fuel = x at agree ⊢
  generalize compile cfg.release prog fuel = y at agree ⊢
  cases agree with
  | ok h => exact .inr (congrArg Except.ok h.symm)
  | @error e d h =>
    right
    cases e with
    | outOfFuel =>
      cases d with
      | outOfFuel => rfl
      | thrown d => exact h.elim
    | thrown e =>
      cases d with
      | outOfFuel => exact h.elim
      | thrown d =>
        rcases h with rfl | ⟨x, rfl, rfl⟩
        · rfl
        · rfl
  | @stopped e y h =>
    left
    cases e with
    | thrown e => rw [h.2]
    | outOfFuel => exact h.elim

/-- What the callers of a function see of it. -/
structure SameInterface (f g : FunDef) : Prop where
  attrs : g.attrs = f.attrs
  sig : funcSig g = funcSig f

/-- The programs have the same constants, and functions of the same interfaces. -/
structure SameInterfaces (prog prog' : Prog) : Prop where
  consts : prog'.consts = prog.consts
  found : ∀ x, Option.Rel SameInterface (findFunction prog x) (findFunction prog' x)

section Separate

variable {prog prog' : Prog}

theorem SameInterfaces.of_forall₂ (consts : prog'.consts = prog.consts)
    (funs : List.Forall₂ (fun f g => g.name = f.name ∧ SameInterface f g) prog.funs prog'.funs) :
    SameInterfaces prog prog' := by
  refine ⟨consts, fun x => ?_⟩
  rw [findFunction, findFunction]
  generalize prog.funs = fs at funs
  generalize prog'.funs = gs at funs
  induction funs with
  | nil => exact .none
  | @cons f g _ _ interface _ ih =>
    rw [List.find?_cons, List.find?_cons, interface.1]
    cases decide (f.name = x) with
    | true => exact .some interface.2
    | false => exact ih

theorem calleeOf_alike {T : List FuncSig × List FuncOp → List FuncSig × List FuncOp → Prop}
    {f g : FunDef} (same : SameInterface f g) :
    Lower.Alike c T Eq (calleeOf f) (calleeOf g) := by
  unfold calleeOf
  rw [same.attrs, same.sig]
  refine .next (.emit (.except _)) fun box => ?_
  cases box with
  | some b => exact .pure rfl
  | none => exact .next (.emit (.except _)) fun sig => .pure rfl

/-- Two builds with the same settings of programs with the same names. -/
def unchanged : Change := ⟨id, Function.injective_id, False⟩

theorem emitFunction_alike {T : List FuncSig × List FuncOp → List FuncSig × List FuncOp → Prop}
    (cfg : Config) (same : SameInterfaces prog prog') (f : FunDef) :
    Lower.Alike unchanged T (fun F G => F.map FuncOp.untraced = G.map FuncOp.untraced)
      (emitFunction cfg prog f) (emitFunction cfg prog' f) := by
  have linked : Linked unchanged T prog prog' calleeOf calleeOf := by
    refine ⟨fun x => ?_⟩
    have found := same.found x
    generalize findFunction prog x = f at found ⊢
    generalize findFunction prog' x = g at found ⊢
    cases found with
    | none => exact .none
    | some interface => exact .some (calleeOf_alike interface)
  have builds : unchanged.Builds cfg cfg := ⟨rfl, .inl rfl⟩
  have body := lowerFunctionBody_alike builds linked
    (same.consts.trans (renameStms_id prog.consts).symm) f
  have named : f.rename unchanged.rename = f := f.rename_id
  rw [named] at body
  unfold emitFunction
  refine .next (.emit (.except _)) fun box => ?_
  cases box with
  | some b => exact .pure rfl
  | none =>
    refine .next (.emit (.except _)) fun func => ?_
    refine .bind (inFunction_alike f.name func.sig.argTypes body) ?_
    rintro ⟨block, trace⟩ ⟨_, trace'⟩ rfl
    exact .pure rfl

/-- A function is lowered the same in both, whatever the bodies of the others. -/
theorem lowerAlone_separately (cfg : Config) (same : SameInterfaces prog prog') (f : FunDef) :
    (lowerAlone cfg prog f).toOption.map (Option.map FuncOp.untraced) =
      (lowerAlone cfg prog' f).toOption.map (Option.map FuncOp.untraced) := by
  have agree := emitFunction_alike (T := fun _ _ => True) cfg same f initialBuilder initialBuilder
    ⟨⟨rfl, rfl, rfl⟩, trivial⟩
  rw [Change.halts_of_strict (c := unchanged) id] at agree
  refine Agree.toOption (E := unchanged.Ends) ?_
  rw [lowerAlone, lowerAlone]
  generalize (emitFunction cfg prog f).run initialBuilder = x at agree ⊢
  generalize (emitFunction cfg prog' f).run initialBuilder = y at agree ⊢
  cases agree with
  | ok h => exact .ok h.1
  | error h => exact .error h
  | stopped h => exact h.elim

/-- A function of the module is what its definition is lowered to. -/
theorem mem_emitted (distinct : (prog.funs.map FunDef.name).Nodup) {module : List FuncOp}
    (lowered : module.Perm (loweredAlone cfg prog)) {f : FunDef} (member : f ∈ prog.funs)
    {F : FuncOp} (name : F.sig.name = f.name) :
    F ∈ module.map FuncOp.untraced ↔
      (lowerAlone cfg prog f).toOption.map (Option.map FuncOp.untraced) = some (some F) := by
  simp only [List.mem_map, lowered.mem_iff, mem_loweredAlone]
  constructor
  · rintro ⟨G, ⟨g, hg, alone⟩, rfl⟩
    have same : g = f := same_function distinct hg member ((lowerAlone_name alone).2.symm.trans name)
    rw [← same, alone]
    rfl
  · intro alone
    obtain ⟨func, found, some⟩ := Option.map_eq_some_iff.mp alone
    obtain ⟨G, rfl, same⟩ := Option.map_eq_some_iff.mp some
    refine ⟨G, ⟨f, member, ?_⟩, same⟩
    cases run : lowerAlone cfg prog f with
    | error e =>
      rw [run] at found
      cases found
    | ok func =>
      rw [run] at found
      exact congrArg Except.ok (Option.some.inj found)

variable (same : SameInterfaces prog prog') (distinct : (prog.funs.map FunDef.name).Nodup)
  (distinct' : (prog'.funs.map FunDef.name).Nodup)

include same distinct distinct'

/-- A program is accepted, and its functions have distinct names. After a change of some of them
that keeps the names distinct and the interfaces, the program is accepted just if each of these is,
and every other function is emitted as before. -/
theorem compile_separately {fuel fuel' : Nat} (deep : prog.funs.length < fuel)
    (deep' : prog'.funs.length < fuel') {cfg : Config} {module : List FuncOp}
    (run : compile cfg prog fuel = .ok module) :
    ((∃ module', compile cfg prog' fuel' = .ok module') ↔
      ∀ g ∈ prog'.funs, g ∉ prog.funs → ∃ F, lowerAlone cfg prog' g = .ok F) ∧
    ∀ module', compile cfg prog' fuel' = .ok module' → ∀ f ∈ prog.funs, f ∈ prog'.funs →
      ∀ F, F.sig.name = f.name →
        (F ∈ module'.map FuncOp.untraced ↔ F ∈ module.map FuncOp.untraced) := by
  have after := @compile_reordered cfg prog' prog' distinct' (.of_perm distinct' (.refl _)) fuel' deep'
  obtain ⟨_, run₀, lowered, _, all⟩ | ⟨_, run₀, _⟩ :=
    @compile_reordered cfg prog prog distinct (.of_perm distinct (.refl _)) fuel deep
  · cases run.symm.trans run₀
    obtain ⟨_, run₁, lowered', _, all'⟩ | ⟨e, run₁, f, hf, fails⟩ := after
    · refine ⟨⟨fun _ g hg _ => all' g hg, fun _ => ⟨_, run₁⟩⟩, fun module' run' f hf hf' F name => ?_⟩
      cases run'.symm.trans run₁
      rw [mem_emitted distinct lowered hf name, mem_emitted distinct' lowered' hf' name,
        lowerAlone_separately cfg same f]
    · -- The function that fails is new: as an old one it was lowered before.
      have new : f ∉ prog.funs := by
        intro old
        obtain ⟨F, alone⟩ := all f old
        have separately := lowerAlone_separately cfg same f
        rw [alone, fails] at separately
        cases separately
      refine ⟨⟨fun ⟨_, run'⟩ => ?_, fun changed => ?_⟩, fun module' run' => ?_⟩
      · cases run'.symm.trans run₁
      · obtain ⟨F, alone⟩ := changed f hf new
        cases alone.symm.trans fails
      · cases run'.symm.trans run₁
  · cases run.symm.trans run₀

end Separate

theorem compile_renamed_parity :
    emitted releaseConfig (parityProg.rename ("v_" ++ ·)) 4 = emitted releaseConfig parityProg 4 ∧
      (emitted releaseConfig parityProg 4).isSome = true := by
  constructor
  · refine compile_renamed (fun x y same => ?_) releaseConfig parityProg 4
    exact (String.append_right_inj _).mp same
  · decide +kernel

def changedParity : Prog :=
  { parityProg with funs := parityProg.parity "even" "odd" 7 :: parityProg.funs.tail }

theorem compile_separately_parity : ∃ module module' : List FuncOp,
    compile releaseConfig parityProg 4 = .ok module ∧
      compile releaseConfig changedParity 4 = .ok module' ∧
      ∀ F : FuncOp, F.sig.name = "odd" →
        (F ∈ module'.map FuncOp.untraced ↔ F ∈ module.map FuncOp.untraced) := by
  obtain ⟨module, run⟩ :=
    Except.exists_ok (x := compile releaseConfig parityProg 4) (by decide +kernel)
  obtain ⟨module', run'⟩ :=
    Except.exists_ok (x := compile releaseConfig changedParity 4) (by decide +kernel)
  have same : SameInterfaces parityProg changedParity :=
    .of_forall₂ rfl (.cons ⟨rfl, rfl, rfl⟩ (.cons ⟨rfl, rfl, rfl⟩ (.cons ⟨rfl, rfl, rfl⟩ .nil)))
  have distinct : (parityProg.funs.map FunDef.name).Nodup := by decide +kernel
  have unchanged := (compile_separately same distinct distinct (show 3 < 4 by decide)
    (show 3 < 4 by decide) run).2 module' run'
  exact ⟨module, module', run, run', unchanged (parityProg.parity "odd" "even" 0)
    (.tail _ (.head _)) (.tail _ (.head _))⟩

end FutharkMlir
