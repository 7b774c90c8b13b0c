import FutharkMlir.Functions.Table

namespace FutharkMlir

variable {cfg : Config} {prog prog' : Prog}

/-- The function has been dealt with: it is a black box or it is in the table. -/
def Settled (functions : List FuncSig) (f : FunDef) : Prop :=
  (∃ b, maybeBlackBox f.attrs = .ok (some b)) ∨
    maybeBlackBox f.attrs = .ok none ∧ f.name ∈ functions.map FuncSig.name

theorem Settled.mono {functions functions' : List FuncSig} {f : FunDef}
    (h : Settled functions f) (more : functions <+: functions') : Settled functions' f := by
  refine h.imp_right fun ⟨notBlackBox, listed⟩ => ⟨notBlackBox, ?_⟩
  exact (more.map FuncSig.name).subset listed

theorem lowerFunction_settled {fuel : Nat} {f : FunDef} {b b' : Builder} {c : Callee}
    (h : (lowerFunction cfg prog fuel f).run b = .ok (c, b')) : Settled b'.functions f := by
  cases fuel with
  | zero => cases h
  | succ fuel =>
    cases boxed : maybeBlackBox f.attrs with
    | error e =>
      rw [lowerFunction, boxed] at h
      cases h
    | ok box =>
      cases box with
      | some box => exact .inl ⟨box, boxed⟩
      | none =>
        refine .inr ⟨boxed, ?_⟩
        cases found : b.functions.find? fun sig => sig.name = f.name with
        | some sig =>
          have listed := List.mem_map_of_mem (f := FuncSig.name) (List.mem_of_find?_eq_some found)
          have name : sig.name = f.name := by simpa using List.find?_some found
          have more := ((lowerFunction cfg prog (fuel + 1) f).tracks h).functions
          exact (more.map FuncSig.name).subset (name ▸ listed)
        | none =>
          cases declared : declareFunction f with
          | error e =>
            rw [lowerFunction, boxed, declared] at h
            have h' : (Lower.functions >>= fun table => _).run b = .ok (c, b') := h
            simp only [Tracked.run_bind, Lower.run_functions, found, Lower.run_liftExcept] at h'
            cases h'
          | ok func =>
            have run := lowerFunction_new cfg prog fuel b boxed found declared
            rw [h] at run
            dsimp only at run
            split at run
            · cases run
            · rename_i yield inner body
              cases run
              have name := funcSig_name (declareFunction_ok declared).1
              have more := (Tracked.tracks _ body).functions
              refine (more.map FuncSig.name).subset ?_
              simp [name]

/-- Every function of the program lowered alone, in the order of the program. -/
def loweredAlone (cfg : Config) (prog : Prog) : List FuncOp :=
  prog.funs.filterMap fun f => match lowerAlone cfg prog f with
    | .ok func => func
    | .error _ => none

theorem mem_loweredAlone {F : FuncOp} :
    F ∈ loweredAlone cfg prog ↔ ∃ f ∈ prog.funs, lowerAlone cfg prog f = .ok (some F) := by
  simp only [loweredAlone, List.mem_filterMap]
  refine exists_congr fun f => and_congr_right fun _ => ?_
  cases lowerAlone cfg prog f <;> simp

theorem lowerAlone_name {f : FunDef} {F : FuncOp}
    (h : lowerAlone cfg prog f = .ok (some F)) :
    maybeBlackBox f.attrs = .ok none ∧ F.sig.name = f.name := by
  cases boxed : maybeBlackBox f.attrs with
  | error e => simp [lowerAlone, emitFunction, boxed, Tracked.run_bind, Lower.run_liftExcept,
      Except.map, Except.mapError] at h
  | ok box =>
    cases box with
    | some b => simp [lowerAlone, emitFunction, boxed, Tracked.run_bind, Lower.run_liftExcept,
        Except.map, Except.mapError] at h
    | none =>
      rw [lowerAlone_eq cfg prog boxed] at h
      split at h
      · cases h
      · rename_i func declared
        dsimp only at h
        split at h
        · cases h
        · cases h
          exact ⟨rfl, funcSig_name (declareFunction_ok declared).1⟩

theorem loweredAlone_names :
    ((loweredAlone cfg prog).map fun F => F.sig.name).Sublist (prog.funs.map FunDef.name) := by
  unfold loweredAlone
  induction prog.funs with
  | nil => exact .slnil
  | cons f fs ih =>
    cases h : lowerAlone cfg prog f with
    | error e => simpa [h] using ih.cons f.name
    | ok func =>
      cases func with
      | none => simpa [h] using ih.cons f.name
      | some F => simpa [h, (lowerAlone_name h).2] using ih.cons_cons f.name

theorem calleeOf_error {f : FunDef} {b : Builder} {e : Err}
    (h : (calleeOf f).run b = .error (.thrown e)) :
    lowerAlone cfg prog f = .error (.thrown e) := by
  cases boxed : maybeBlackBox f.attrs with
  | error e' =>
    rw [calleeOf, boxed] at h
    cases h
    simp [lowerAlone, emitFunction, boxed, Tracked.run_bind, Lower.run_liftExcept,
      Except.map, Except.mapError]
  | ok box =>
    rw [calleeOf, boxed] at h
    cases box with
    | some box => cases h
    | none =>
      cases sig : funcSig f with
      | ok sig =>
        rw [sig] at h
        cases h
      | error e' =>
        rw [sig] at h
        cases h
        have declared : declareFunction f = .error e := by
          rw [declareFunction, sig]
          rfl
        rw [lowerAlone_eq cfg prog boxed, declared]

section Order

variable (distinct : (prog.funs.map FunDef.name).Nodup) (reordered : Reordered prog prog')
include distinct reordered

theorem lowerFunctions_run {fuel : Nat} (deep : prog.funs.length < fuel) (fs : List FunDef)
    (members : ∀ f ∈ fs, f ∈ prog.funs) (b : Builder)
    (table : Table cfg prog [] b.functions b.module) :
    (∃ b', (lowerFunctions cfg prog' fuel fs).run b = .ok ((), b') ∧
      Table cfg prog [] b'.functions b'.module ∧ ∀ f ∈ fs, Settled b'.functions f) ∨
    ∃ e, (lowerFunctions cfg prog' fuel fs).run b = .error (.thrown e) ∧
      FailsAlone cfg prog e := by
  induction fs generalizing b with
  | nil => exact .inl ⟨b, rfl, table, by simp⟩
  | cons f fs ih =>
    have member := members f List.mem_cons_self
    have enough : missing prog b.functions < fuel :=
      lt_of_le_of_lt List.countP_le_length deep
    simp only [lowerFunctions, Tracked.run_bind]
    rcases lowerFunction_inStep distinct reordered fuel [] member b b ⟨table, enough⟩ rfl with
      ⟨c, b', c', hm, _, ⟨table', _⟩, _⟩ | ⟨e, hm, hn⟩
    · simp only [hm]
      have settled := lowerFunction_settled hm
      rcases ih (fun g hg => members g (List.mem_cons_of_mem _ hg)) b' table' with
        ⟨b'', run, table'', all⟩ | ⟨e, run, fails⟩
      · refine .inl ⟨b'', run, table'', fun g hg => ?_⟩
        rcases List.mem_cons.mp hg with rfl | hg
        · exact settled.mono ((lowerFunctions cfg prog' fuel fs).tracks run).functions
        · exact all g hg
      · exact .inr ⟨e, run, fails⟩
    · simp only [hm]
      refine .inr ⟨e, rfl, ?_⟩
      rcases hn with hn | hn
      · exact ⟨f, member, calleeOf_error hn⟩
      · exact hn

/-- With more depth than functions, the compiler ends with every function lowered alone,
or with the error one of them gives alone. -/
theorem compile_reordered {fuel : Nat} (deep : prog.funs.length < fuel) :
    (∃ module, compile cfg prog' fuel = .ok module ∧ module.Perm (loweredAlone cfg prog) ∧
      (module.map fun F => F.sig.name).Nodup ∧
      ∀ f ∈ prog.funs, ∃ func, lowerAlone cfg prog f = .ok func) ∨
    ∃ e, compile cfg prog' fuel = .error (.thrown e) ∧ FailsAlone cfg prog e := by
  have start : Table cfg prog [] initialBuilder.functions initialBuilder.module :=
    ⟨rfl, List.nodup_nil, fun F hF => by cases hF⟩
  unfold compile
  rcases lowerFunctions_run distinct reordered deep prog'.funs
      (fun f hf => (reordered.member f).mp hf) initialBuilder start with
    ⟨b, run, table, all⟩ | ⟨e, run, fails⟩
  · rw [run]
    have names : (b.module.map fun F => F.sig.name).Nodup := by
      have h := table.nodup
      rw [← table.sigs, List.map_map] at h
      exact h
    have alone : ∀ f ∈ prog.funs, ∃ func, lowerAlone cfg prog f = .ok func ∧
        ∀ F, func = some F → F ∈ b.module := by
      intro f hf
      rcases all f ((reordered.member f).mpr hf) with ⟨box, boxed⟩ | ⟨_, listed⟩
      · refine ⟨none, ?_, fun F h => by cases h⟩
        simp [lowerAlone, emitFunction, boxed, Tracked.run_bind, Lower.run_liftExcept,
          Except.map, Except.mapError]
      · rw [← table.sigs, List.map_map] at listed
        obtain ⟨F, hF, name⟩ := List.mem_map.mp listed
        obtain ⟨g, hg, same, _, _, state⟩ := table.entries F hF
        have eq : g = f := same_function distinct hg hf (same.trans name)
        subst eq
        have complete := state.resolve_left List.not_mem_nil
        exact ⟨some F, complete, fun F' h => by cases h; exact hF⟩
    refine .inl ⟨b.module, rfl, ?_, names, fun f hf => ?_⟩
    · refine (List.perm_ext_iff_of_nodup (List.Nodup.of_map _ names) ?_).mpr fun F => ?_
      · exact List.Nodup.of_map _ (distinct.sublist loweredAlone_names)
      · rw [mem_loweredAlone]
        constructor
        · intro hF
          obtain ⟨g, hg, _, _, _, state⟩ := table.entries F hF
          exact ⟨g, hg, state.resolve_left List.not_mem_nil⟩
        · rintro ⟨f, hf, h⟩
          obtain ⟨func, eq, mem⟩ := alone f hf
          exact mem F (Except.ok.inj (eq.symm.trans h))
    · obtain ⟨func, eq, _⟩ := alone f hf
      exact ⟨func, eq⟩
  · rw [run]
    exact .inr ⟨e, rfl, fails⟩

end Order

end FutharkMlir
