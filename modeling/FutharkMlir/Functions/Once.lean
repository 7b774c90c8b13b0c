import FutharkMlir.Scoping.Functions

namespace FutharkMlir

variable {cfg : Config} {prog : Prog}

def FunDef.lowered (f : FunDef) : Bool :=
  match maybeBlackBox f.attrs with
  | .ok none => true
  | _ => false

theorem FunDef.lowered_iff {f : FunDef} : f.lowered = true ↔ maybeBlackBox f.attrs = .ok none := by
  unfold lowered
  split <;> simp_all

def Callable (prog : Prog) (name : String) : Prop :=
  ∃ f ∈ prog.funs, f.lowered = true ∧ f.name = name

/-- The record of a statement is that of a run of its expression's lowering. -/
def Emitted (cfg : Config) (prog : Prog) (event : StmEvent) : Prop :=
  ∃ b b', (lowerExp cfg prog calleeOf event.stm.exp event.before).run b =
      .ok ((event.values, event.after), b') ∧
    b'.ip.ops = b.ip.ops ++ event.ops

theorem calleeOf_ok {f : FunDef} {b b' : Builder} {c : Callee}
    (h : (calleeOf f).run b = .ok (c, b')) :
    b' = b ∧ ∀ sig, c = .func sig → f.lowered = true ∧ sig.name = f.name := by
  cases boxed : maybeBlackBox f.attrs with
  | error e =>
    rw [calleeOf, boxed] at h
    cases h
  | ok box =>
    cases box with
    | some box =>
      rw [calleeOf, boxed] at h
      cases h
      exact ⟨rfl, fun sig eq => by cases eq⟩
    | none =>
      cases declared : funcSig f with
      | error e =>
        rw [calleeOf, boxed, declared] at h
        cases h
      | ok sig =>
        rw [calleeOf, boxed, declared] at h
        cases h
        refine ⟨rfl, fun sig' eq => ?_⟩
        cases eq
        exact ⟨FunDef.lowered_iff.mpr boxed, funcSig_name declared⟩

/-- The rules a function lowered alone keeps to: it calls functions of the program only,
and its record is one of runs. -/
def callRules (cfg : Config) (prog : Prog) (func : String) (trace : List StmEvent) : Rules where
  func
  call := Callable prog
  empty _ _ := True
  owned _ _ := True
  trace
  state trace _ := ∀ event ∈ trace, Emitted cfg prog event

theorem callRules_lawful (func : String) (trace : List StmEvent) :
    (callRules cfg prog func trace).Lawful cfg prog calleeOf := by
  refine ⟨fun _ _ _ _ _ _ _ => trivial, ?_, ?_⟩
  · intro f member b c b' run
    obtain ⟨rfl, called⟩ := calleeOf_ok run
    refine ⟨rfl, id, fun sig eq => ?_⟩
    obtain ⟨lowered, name⟩ := called sig eq
    exact ⟨f, member, lowered, name.symm⟩
  · intro pat exp ctx b values after b' new module run ops state event hevent
    rcases List.mem_append.mp hevent with hevent | hevent
    · exact state event hevent
    · rw [List.mem_singleton.mp hevent]
      exact ⟨b, b', run, ops⟩

/-- The calls of a function lowered alone are of functions that are lowered. -/
theorem lowerAlone_callees {f : FunDef} {F : FuncOp}
    (alone : lowerAlone cfg prog f = .ok (some F)) :
    ∃ body, F.body = some body ∧ (∀ c ∈ body.callees, Callable prog c) ∧
      ∀ event ∈ F.trace, Emitted cfg prog event := by
  rw [lowerAlone_eq cfg prog (lowerAlone_name alone).1] at alone
  split at alone
  · cases alone
  · rename_i func declared
    dsimp only at alone
    split at alone
    · cases alone
    · rename_i yield b' run
      cases alone
      let R := callRules cfg prog f.name b'.ip.trace
      obtain ⟨recorded, new, ops, valid, _⟩ := lowerFunctionBody_keeps (R := R) (S := Set.univ)
        (callRules_lawful _ _) (fun _ _ h => h) (fun v _ => Set.mem_univ v)
        (.inl Set.mem_univ) Set.univ _ _ _ run rfl List.prefix_rfl subset_rfl
        (fun event hevent => by cases hevent)
      refine ⟨_, rfl, ?_, recorded⟩
      rw [Block.callees, ops, List.nil_append]
      exact opsValid_callees valid

section Apply

theorem opsCallees_append (xs ys : List Op) :
    opsCallees (xs ++ ys) = opsCallees xs ++ opsCallees ys := by
  induction xs with
  | nil => rw [opsCallees, List.nil_append, List.nil_append]
  | cons op xs ih => rw [List.cons_append, opsCallees, opsCallees, ih, List.append_assoc]

/-- Rules that allow no call. -/
def noCalls (func : String) : Rules where
  func
  call _ := False
  empty _ _ := True
  owned _ _ := True
  trace := []
  state _ _ := True

/-- Code that keeps to the rules without calls appends operations without calls. -/
theorem Emit.Keeps.no_callees {α : Type} {m : Emit α} {Q : Set Value → α → Prop}
    (h : ∀ func, Emit.Keeps (noCalls func) Set.univ m Q) {ip ip' : Insertion} {a : α}
    (run : m.run ip = .ok (a, ip')) : ∃ new, ip'.ops = ip.ops ++ new ∧ opsCallees new = [] := by
  obtain ⟨new, ops, valid, _⟩ := h ip.func Set.univ ip a ip' run rfl subset_rfl
  refine ⟨new, ops, List.eq_nil_iff_forall_not_mem.mpr fun c hc => ?_⟩
  exact opsValid_callees valid c hc

theorem lowerCallee_callees {sig : FuncSig} {args : List SubExp} {retTys : List MlirTy}
    {ctx : Ctx} {ip ip' : Insertion} {vs : List Value}
    (run : (lowerCallee cfg (.func sig) args retTys ctx).run ip = .ok (vs, ip')) :
    ∃ new, ip'.ops = ip.ops ++ new ∧ opsCallees new = [sig.name] := by
  unfold lowerCallee at run
  obtain ⟨pairs, ip₁, zip, run⟩ := Tracked.bind_ok.mp run
  obtain ⟨operands, ip₂, first, last⟩ := Tracked.bind_ok.mp run
  obtain ⟨_, rfl⟩ := Tracked.ofExcept_ok.mp zip
  obtain ⟨new, ops, none⟩ := Emit.Keeps.no_callees
    (fun func => lowerCallArgs_keeps fun _ _ v _ => Set.mem_univ v) first
  cases last
  refine ⟨new ++ [_], by rw [ops, List.append_assoc], ?_⟩
  rw [opsCallees_append, none, opsCallees, opsCallees, Op.callees, OpCode.callees, blocksCallees]
  simp

/-- An application of a function that is lowered inserts one call, of that function. -/
theorem lowerApply_callees {fname : String} {g : FunDef} (found : findFunction prog fname = some g)
    (lowered : g.lowered = true) {args : List SubExp} {retTypes : List Ty} {ctx : Ctx}
    {b b' : Builder} {vs : List Value}
    (run : (lowerApply cfg prog calleeOf fname args retTypes ctx).run b = .ok (vs, b')) :
    ∃ new, b'.ip.ops = b.ip.ops ++ new ∧ opsCallees new = [fname] := by
  rw [lowerApply, found] at run
  obtain ⟨retTys, b₁, types, run⟩ := Tracked.bind_ok.mp run
  obtain ⟨callee, b₂, lookup, run⟩ := Tracked.bind_ok.mp run
  obtain ⟨returns, b₃, call, run⟩ := Tracked.bind_ok.mp run
  obtain ⟨pairs, b₄, zip, casts⟩ := Tracked.bind_ok.mp run
  have eq₁ : b = b₁ := (Lower.liftExcept_ok.mp types).2
  have eq₄ : b₃ = b₄ := (Lower.liftExcept_ok.mp zip).2
  obtain ⟨eq₂, called⟩ := calleeOf_ok lookup
  subst eq₁ eq₂ eq₄
  obtain ⟨sig, rfl⟩ : ∃ sig, callee = .func sig := by
    rw [calleeOf, FunDef.lowered_iff.mp lowered] at lookup
    cases declared : funcSig g <;> rw [declared] at lookup <;> cases lookup
    exact ⟨_, rfl⟩
  obtain ⟨ip, emitted, rfl⟩ := Lower.run_ofEmit call
  obtain ⟨ip', cast, rfl⟩ := Lower.run_ofEmit casts
  obtain ⟨new, ops, one⟩ := lowerCallee_callees emitted
  obtain ⟨new', ops', none⟩ := Emit.Keeps.no_callees
    (fun func => castAll_keeps fun v _ => Set.mem_univ v) cast
  refine ⟨new ++ new', by rw [ops', ops, List.append_assoc], ?_⟩
  have name : g.name = fname := by simpa using List.find?_some found
  rw [opsCallees_append, one, none, List.append_nil, (called sig rfl).2, name]

/-- The record of an application of a function that is lowered holds one call of it. -/
theorem Emitted.callees {event : StmEvent} (emitted : Emitted cfg prog event) {pat : List PatElem}
    {fname : String} {args : List SubExp} {retTypes : List Ty}
    (stm : event.stm = .mk pat (.apply fname args retTypes)) {g : FunDef}
    (found : findFunction prog fname = some g) (lowered : g.lowered = true) :
    opsCallees event.ops = [fname] := by
  obtain ⟨b, b', run, ops⟩ := emitted
  rw [stm, Stm.exp, lowerExp] at run
  obtain ⟨vs, b₁, apply, last⟩ := Tracked.bind_ok.mp run
  obtain ⟨_, rfl⟩ := Tracked.pure_ok.mp last
  obtain ⟨new, ops', one⟩ := lowerApply_callees found lowered apply
  rw [ops] at ops'
  rw [List.append_cancel_left ops', one]

end Apply

/-- With its functions in another order the program is the same one. -/
theorem Reordered.of_perm (distinct : (prog.funs.map FunDef.name).Nodup) {funs : List FunDef}
    (perm : funs.Perm prog.funs) : Reordered prog { prog with funs } := by
  refine ⟨rfl, fun f => perm.mem_iff, fun x => ?_⟩
  have distinct' : (funs.map FunDef.name).Nodup := (perm.map FunDef.name).nodup_iff.mpr distinct
  have agree : ∀ f, findFunction { prog with funs } x = some f → findFunction prog x = some f := by
    intro f found
    have member := perm.mem_iff.mp (List.mem_of_find?_eq_some found)
    have name : f.name = x := by simpa using List.find?_some found
    cases h : findFunction prog x with
    | none =>
      have := List.find?_eq_none.mp h f member
      simp [name] at this
    | some g =>
      have name' : g.name = x := by simpa using List.find?_some h
      rw [same_function distinct (List.mem_of_find?_eq_some h) member (name'.trans name.symm)]
  cases h : findFunction { prog with funs } x with
  | some f => rw [agree f h]
  | none =>
    symm
    refine List.find?_eq_none.mpr fun f hf => ?_
    exact List.find?_eq_none.mp h f (perm.mem_iff.mpr hf)

/-- A function that lowers at all lowers to a `FuncOp` if it is no black box, and to none
if it is one. -/
theorem lowerAlone_lowered {f : FunDef} {func : Option FuncOp}
    (alone : lowerAlone cfg prog f = .ok func) : func.isSome = f.lowered := by
  cases boxed : maybeBlackBox f.attrs with
  | error e => simp [lowerAlone, emitFunction, boxed, Tracked.run_bind, Lower.run_liftExcept,
      Except.map, Except.mapError] at alone
  | ok box =>
    cases box with
    | some box =>
      have blackBox : none = func := by
        simpa [lowerAlone, emitFunction, boxed, Tracked.run_bind, Lower.run_liftExcept,
          Except.map, Except.mapError] using alone
      rw [← blackBox, FunDef.lowered, boxed]
      rfl
    | none =>
      rw [lowerAlone_eq cfg prog boxed] at alone
      rw [FunDef.lowered, boxed]
      split at alone
      · cases alone
      · dsimp only at alone
        split at alone
        · cases alone
        · cases alone
          rfl

theorem loweredAlone_lowered (all : ∀ f ∈ prog.funs, ∃ func, lowerAlone cfg prog f = .ok func) :
    (loweredAlone cfg prog).map (fun F => F.sig.name) =
      (prog.funs.filter FunDef.lowered).map FunDef.name := by
  unfold loweredAlone
  generalize prog.funs = fs at all ⊢
  induction fs with
  | nil => rfl
  | cons f fs ih =>
    obtain ⟨func, alone⟩ := all f List.mem_cons_self
    have rest := ih fun g hg => all g (List.mem_cons_of_mem _ hg)
    have kind := lowerAlone_lowered alone
    cases func with
    | none => simpa [alone, ← kind] using rest
    | some F => simpa [alone, ← kind, (lowerAlone_name alone).2] using rest

/-- Whatever the call graph, the compiler ends: each function is lowered once, to the same
`FuncOp` for every order of the functions, and its calls are of functions of the module. -/
theorem compile_once (distinct : (prog.funs.map FunDef.name).Nodup) {depth : Nat}
    (deep : prog.funs.length < depth) (noThrow : ∀ e, compile cfg prog depth ≠ .error (.thrown e)) :
    ∃ module : List FuncOp,
      (∀ funs : List FunDef, funs.Perm prog.funs → ∀ fuel, prog.funs.length < fuel →
        ∃ module', compile cfg { prog with funs } fuel = .ok module' ∧ module'.Perm module) ∧
      (module.map fun F => F.sig.name).Nodup ∧
      (module.map fun F => F.sig.name).Perm ((prog.funs.filter FunDef.lowered).map FunDef.name) ∧
      ∀ F ∈ module, ∃ body, F.body = some body ∧
        (∀ c ∈ body.callees, ∃ G ∈ module, G.sig.name = c) ∧
        ∀ event ∈ F.trace, ∀ pat fname args retTypes g,
          event.stm = .mk pat (.apply fname args retTypes) → findFunction prog fname = some g →
          g.lowered = true → opsCallees event.ops = [fname] := by
  have all : ∀ f ∈ prog.funs, ∃ func, lowerAlone cfg prog f = .ok func := by
    rcases compile_reordered distinct (.of_perm distinct (.refl _)) deep with
      ⟨_, _, _, _, all⟩ | ⟨e, run, _⟩
    · exact all
    · exact absurd run (noThrow e)
  have names := loweredAlone_lowered all
  refine ⟨loweredAlone cfg prog, fun funs perm fuel more => ?_, ?_, names ▸ .refl _, ?_⟩
  · rcases compile_reordered distinct (.of_perm distinct perm) more with
      ⟨module', run, same, _⟩ | ⟨e, _, f, member, fails⟩
    · exact ⟨module', run, same⟩
    · obtain ⟨func, alone⟩ := all f member
      cases alone.symm.trans fails
  · exact distinct.sublist loweredAlone_names
  · intro F hF
    obtain ⟨f, member, alone⟩ := mem_loweredAlone.mp hF
    obtain ⟨body, hbody, callees, recorded⟩ := lowerAlone_callees alone
    refine ⟨body, hbody, fun c hc => ?_, ?_⟩
    · obtain ⟨g, hg, lowered, rfl⟩ := callees c hc
      obtain ⟨func, alone'⟩ := all g hg
      have kind := lowerAlone_lowered alone'
      rw [lowered, Option.isSome_iff_exists] at kind
      obtain ⟨G, rfl⟩ := kind
      exact ⟨G, mem_loweredAlone.mpr ⟨g, hg, alone'⟩, (lowerAlone_name alone').2⟩
    · intro event hevent pat fname args retTypes g stm found lowered
      exact (recorded event hevent).callees stm found lowered

theorem compile_once_parity : ∃ module : List FuncOp,
    (∀ funs : List FunDef, funs.Perm parityProg.funs → ∀ fuel, parityProg.funs.length < fuel →
      ∃ module', compile releaseConfig { parityProg with funs } fuel = .ok module' ∧
        module'.Perm module) ∧
    (module.map fun F => F.sig.name).Perm ["even", "odd", "main"] := by
  obtain ⟨accepted, run⟩ :=
    Except.exists_ok (x := compile releaseConfig parityProg 4) (by decide +kernel)
  have distinct : (parityProg.funs.map FunDef.name).Nodup := by decide +kernel
  have noThrow : ∀ e, compile releaseConfig parityProg 4 ≠ .error (.thrown e) := by
    intro e h
    cases run.symm.trans h
  obtain ⟨module, orders, _, names, _⟩ := compile_once distinct (show 3 < 4 by decide) noThrow
  exact ⟨module, orders, names⟩

end FutharkMlir
