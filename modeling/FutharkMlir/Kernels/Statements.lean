import FutharkMlir.Kernels.Body
import FutharkMlir.Scoping.Frame

/-! The statements of a kernel at a point: those that load at gtids are skipped, since their
names are bound before the first one is run. -/
namespace FutharkMlir

variable {F : Type}

theorem stmsBinders_cons (stm : Stm) (rest : List Stm) :
    stmsBinders (stm :: rest) = stm.patNames ++ stm.exp.binders ++ stmsBinders rest := by
  cases stm
  rfl

theorem stmsBinders_append {before after : List Stm} :
    stmsBinders (before ++ after) = stmsBinders before ++ stmsBinders after := by
  induction before with
  | nil => rfl
  | cons stm before ih =>
    rw [List.cons_append, stmsBinders_cons, stmsBinders_cons, ih]
    simp only [List.append_assoc]

theorem patNames_subset {stms : List Stm} {stm : Stm} (h : stm ∈ stms) :
    stm.patNames ⊆ stmsBinders stms := by
  obtain ⟨before, after, rfl⟩ := List.append_of_mem h
  intro x hx
  rw [stmsBinders_append, stmsBinders_cons]
  exact List.mem_append_right _ (List.mem_append_left _ (List.mem_append_left _ hx))

theorem patNames_unique {stms : List Stm} (nodup : (stmsBinders stms).Nodup) {stm stm' : Stm}
    (h : stm ∈ stms) (h' : stm' ∈ stms) {x : VName} (hx : x ∈ stm.patNames)
    (hx' : x ∈ stm'.patNames) : stm = stm' := by
  induction stms with
  | nil => cases h
  | cons head rest ih =>
    rw [stmsBinders_cons, List.append_assoc, List.nodup_append] at nodup
    obtain ⟨_, nodup, disjoint⟩ := nodup
    have apart : ∀ stm'' ∈ rest, x ∈ stm''.patNames → x ∉ head.patNames :=
      fun stm'' member bound own =>
        disjoint x own x (List.mem_append_right _ (patNames_subset member bound)) rfl
    rcases List.mem_cons.mp h with rfl | old <;> rcases List.mem_cons.mp h' with eq | old'
    · exact eq.symm
    · exact (apart stm' old' hx' hx).elim
    · exact (apart stm old hx (eq ▸ hx')).elim
    · exact ih (List.nodup_append.mp nodup).2.1 old old'

def Skips (space : SegSpace) (skip : List VName) (stms : List Stm) : Prop :=
  ∀ stm ∈ stms, (stm.pat.map PatElem.name).any skip.contains = (space.affineRead stm).isSome

theorem affineRead_name {space : SegSpace} {stm : Stm} {read : AffineRead}
    (h : space.affineRead stm = some read) : stm.patNames = [read.result] := by
  obtain ⟨elem, arr, dims, used, rfl, _, rfl⟩ := affineRead_some h
  rfl

theorem affineReads_results (space : SegSpace) (stms : List Stm) :
    ((space.affineReads stms).map AffineRead.result).Sublist (stmsBinders stms) := by
  induction stms with
  | nil => exact .refl _
  | cons stm rest ih =>
    rw [SegSpace.affineReads, List.filterMap_cons, stmsBinders_cons]
    cases loads : space.affineRead stm with
    | none => exact ih.trans (List.sublist_append_right _ _)
    | some read =>
      rw [affineRead_name loads, List.append_assoc]
      exact (ih.trans (List.sublist_append_right _ _)).cons_cons _

theorem skips_affineReads (space : SegSpace) {stms : List Stm}
    (single : ∀ stm ∈ stms, ∃ elem exp, stm = .mk [elem] exp)
    (nodup : (stmsBinders stms).Nodup) :
    Skips space ((space.affineReads stms).map AffineRead.result) stms := by
  intro stm hstm
  obtain ⟨elem, exp, rfl⟩ := single stm hstm
  rw [Bool.eq_iff_iff, Option.isSome_iff_exists]
  simp only [Stm.pat, List.map_cons, List.map_nil, List.any_cons, List.any_nil, Bool.or_false,
    List.contains_iff_mem, List.mem_map]
  constructor
  · rintro ⟨read, hread, name⟩
    obtain ⟨stm', hstm', loads⟩ := mem_affineReads.mp hread
    have same : stm' = .mk [elem] exp := by
      refine patNames_unique nodup hstm' hstm (x := elem.name) ?_ (by simp [Stm.patNames, Stm.pat])
      rw [affineRead_name loads, name]
      exact List.mem_singleton_self _
    exact ⟨read, same ▸ loads⟩
  · rintro ⟨read, loads⟩
    have name := affineRead_name loads
    exact ⟨read, mem_affineReads.mpr ⟨_, hstm, loads⟩, (List.cons.inj name).1.symm⟩

section Load

variable {prog : Prog} {fl : FloatOps F} {call : String → List (FVal F) → Option (List (FVal F))}
  {Γ Γ' : Types} {ρ ρ' : Store F} {elem : PatElem} {arr : VName} {dims : List DimIndex}

theorem typeLoad (h : typeStm prog (.mk [elem] (.basicOp (.index arr dims))) Γ = some Γ') :
    ∃ t shape, Γ arr = some (.array t shape) ∧ Γ' = Γ.insert elem.name (.prim t) := by
  rw [typeStm, typeExp] at h
  obtain ⟨ts, type, h⟩ := Option.bind_eq_some_iff.mp h
  obtain ⟨types, bound⟩ := Option.ite_none_right_eq_some.mp h
  obtain ⟨t, load, eq⟩ := Option.bind_eq_some_iff.mp type
  cases eq
  rw [typeBasicOp] at load
  obtain ⟨_, _, load⟩ := Option.bind_eq_some_iff.mp load
  split at load
  · rename_i e shape array
    obtain ⟨_, scalar⟩ := Option.ite_none_right_eq_some.mp load
    have declared : elem.ty = .prim e := by
      rw [(List.cons.inj types).1, ← Ty.scalar_eq scalar]
    refine ⟨e, shape, array, ?_⟩
    rw [← declared]
    exact (Option.some.inj bound).symm
  · cases load

theorem evalLoad (h : evalStm fl call (.mk [elem] (.basicOp (.index arr dims))) ρ = some ρ') :
    ∃ a q, ρ arr = some (.array a) ∧ dims.mapM (evalPosition fl ρ) = some q ∧
      ρ' = ρ.insert elem.name (.prim (a.get q)) := by
  rw [evalStm, evalExp] at h
  obtain ⟨vals, eval, bound⟩ := Option.bind_eq_some_iff.mp h
  obtain ⟨val, load, eq⟩ := Option.bind_eq_some_iff.mp eval
  cases eq
  rw [evalBasicOp] at load
  obtain ⟨x, element, rfl⟩ := Option.map_eq_some_iff.mp load
  rw [evalIndex] at element
  split at element
  · rename_i a array
    obtain ⟨q, hq, element⟩ := Option.bind_eq_some_iff.mp element
    obtain ⟨_, eq⟩ := Option.ite_none_right_eq_some.mp element
    cases eq
    exact ⟨a, q, array, hq, (Option.some.inj bound).symm⟩
  · cases element

theorem typeStm_binds {stm : Stm} (h : typeStm prog stm Γ = some Γ') :
    ∃ tys, Γ.bind stm.patNames tys = some Γ' := by
  obtain ⟨pat, exp⟩ := stm
  rw [typeStm] at h
  obtain ⟨ts, _, h⟩ := Option.bind_eq_some_iff.mp h
  exact ⟨_, (Option.ite_none_right_eq_some.mp h).2⟩

theorem evalStm_binds {stm : Stm} (h : evalStm fl call stm ρ = some ρ') :
    ∃ vals, ρ.bind stm.patNames vals = some ρ' := by
  obtain ⟨pat, exp⟩ := stm
  rw [evalStm] at h
  obtain ⟨vals, _, values⟩ := Option.bind_eq_some_iff.mp h
  exact ⟨vals, values⟩

end Load

section Statements

variable {W : World F} {point : List Nat} {E : Env F} {ctx : Ctx} {Γ Γ' : Types} {ρ ρ' : Store F}
  {p : List Nat} {space : SegSpace} {names : List VName}

def AtPoint (fl : FloatOps F) (space : SegSpace) (ρ : Store F) (p : List Nat) : Prop :=
  ∀ j x, (space.dims.map Prod.fst)[j]? = some x →
    evalPosition fl ρ (.fix (.var x)) = some (p.getD j 0)

theorem AtPoint.bound {fl : FloatOps F} (h : AtPoint fl space ρ p) (covers : Covers Γ ρ)
    (fresh : FreshNames Γ names) {vals : List (FVal F)} (values : ρ.bind names vals = some ρ') :
    AtPoint fl space ρ' p := by
  intro j x hx
  have position := h j x hx
  have old : x ∉ names := by
    intro member
    refine covers x (fun none => ?_) (fresh.2 x member)
    simp [evalPosition, evalPrim, evalSubExp, none] at position
  rw [← position]
  simp only [evalPosition, evalPrim, evalSubExp, Binding.bind_of_not_mem values old]

theorem Hoisted.bound {v : Value} {read : AffineRead} (h : Hoisted Γ ρ p E v read)
    (fresh : FreshNames Γ names) {tys : List Ty} (types : Γ.bind names tys = some Γ')
    {vals : List (FVal F)} (values : ρ.bind names vals = some ρ') : Hoisted Γ' ρ' p E v read := by
  obtain ⟨a, elem, shape, ha, hΓ, rest⟩ := h
  have old : read.array ∉ names := by
    intro member
    rw [fresh.2 _ member] at hΓ
    cases hΓ
  refine ⟨a, elem, shape, ?_, ?_, rest⟩
  · rw [Binding.bind_of_not_mem values old, ha]
  · rw [Binding.bind_of_not_mem types old, hΓ]

/-- The loads at gtids that are to come are bound to what they read. -/
def Pending (space : SegSpace) (Γ : Types) (ρ : Store F) (p : List Nat) (E : Env F)
    (stms : List Stm) (c : Ctx) : Prop :=
  ∀ read ∈ space.affineReads stms, ∃ v, c read.result = some v ∧ Hoisted Γ ρ p E v read

/-- A load at gtids that is skipped has its value already. -/
theorem Stands.load {prog : Prog} {call : String → List (FVal F) → Option (List (FVal F))}
    {fl : FloatOps F} (stands : Stands E ctx Γ ρ) (atPoint : AtPoint fl space ρ p) {stm : Stm}
    {read : AffineRead} (loads : space.affineRead stm = some read)
    (type : typeStm prog stm Γ = some Γ') (eval : evalStm fl call stm ρ = some ρ') {v : Value}
    (hv : ctx read.result = some v) (hoisted : Hoisted Γ ρ p E v read) : Stands E ctx Γ' ρ' := by
  obtain ⟨elem, arr, dims, used, rfl, gtids, rfl⟩ := affineRead_some loads
  obtain ⟨t, shape, array, rfl⟩ := typeLoad type
  obtain ⟨a, q, stored, position, rfl⟩ := evalLoad eval
  obtain ⟨a', t', shape', stored', array', rep, hasType⟩ := hoisted
  cases array.symm.trans array'
  cases stored.symm.trans stored'
  cases position.symm.trans (gtids_positions atPoint gtids)
  exact stands.bound hv rep hasType

theorem Pending.later {stm : Stm} {rest : List Stm} {c : Ctx}
    (h : Pending space Γ ρ p E (stm :: rest) c) : Pending space Γ ρ p E rest c := by
  intro read hread
  obtain ⟨stm', hstm', loads⟩ := mem_affineReads.mp hread
  exact h read (mem_affineReads.mpr ⟨stm', List.mem_cons_of_mem _ hstm', loads⟩)

theorem Pending.bound {stms : List Stm} {c c' : Ctx} {E' : Env F}
    (h : Pending space Γ ρ p E stms c) (sub : E.Sub E') (fresh : FreshNames Γ names)
    {tys : List Ty} (types : Γ.bind names tys = some Γ') {vals : List (FVal F)}
    (values : ρ.bind names vals = some ρ')
    (same : ∀ read ∈ space.affineReads stms, c' read.result = c read.result) :
    Pending space Γ' ρ' p E' stms c' := by
  intro read hread
  obtain ⟨v, hv, hoisted⟩ := h read hread
  exact ⟨v, (same read hread).trans hv, (hoisted.mono sub).bound fresh types values⟩

/-- The names of the loads that are to come are not those of an earlier statement. -/
theorem affineRead_apart {stm : Stm} {rest : List Stm}
    (nodup : (stm.patNames ++ stm.exp.binders ++ stmsBinders rest).Nodup) {read : AffineRead}
    (h : read ∈ space.affineReads rest) : read.result ∉ stm.exp.leaks ++ stm.patNames := by
  obtain ⟨stm', hstm', loads⟩ := mem_affineReads.mp h
  have later : read.result ∈ stmsBinders rest :=
    patNames_subset hstm' (by rw [affineRead_name loads]; exact List.mem_singleton_self _)
  intro member
  refine (List.nodup_append.mp nodup).2.2 _ ?_ _ later rfl
  rcases List.mem_append.mp member with leak | own
  · exact List.mem_append_right _ (stm.exp.leaks_subset leak)
  · exact List.mem_append_left _ own

end Statements

section Lowering

variable (cfg : Config) {prog : Prog} {W : World F} {point : List Nat}
  {call : String → List (FVal F) → Option (List (FVal F))} {space : SegSpace} {skip : List VName}
  {p : List Nat}

/-- Run in order but for the loads at gtids, the statements compute what they mean. -/
theorem lowerKernelStms_runs (calls : CallsAgree W prog call) {stms : List Stm} {Γ Γ' : Types}
    {ctx : Ctx} {ρ ρ' : Store F} {E : Env F} (type : typeStms prog stms Γ = some Γ')
    (eval : evalStms W.machine.toFloatOps call stms ρ = some ρ') (stands : Stands E ctx Γ ρ)
    (fresh : FreshNames Γ (stmsBinders stms)) (skips : Skips space skip stms)
    (atPoint : AtPoint W.machine.toFloatOps space ρ p)
    (pending : Pending space Γ ρ p E stms ctx) :
    Lower.Runs W point E (lowerKernelStms cfg prog calleeOf stms skip ctx)
      (StmsRun ctx Γ Γ' ρ') := by
  induction stms generalizing Γ ctx ρ E with
  | nil =>
    cases type
    rw [evalStms] at eval
    cases eval
    unfold lowerKernelStms
    exact .pure ⟨rfl, stands, fun _ _ => rfl⟩
  | cons stm rest ih =>
    rw [typeStms] at type
    rw [evalStms] at eval
    obtain ⟨Γ₁, first, later⟩ := Option.bind_eq_some_iff.mp type
    obtain ⟨ρ₁, eval₁, eval₂⟩ := Option.bind_eq_some_iff.mp eval
    obtain ⟨tys, types⟩ := typeStm_binds first
    obtain ⟨vals, values⟩ := evalStm_binds eval₁
    have own : FreshNames Γ (stm.patNames ++ stm.exp.binders ++ stmsBinders rest) := by
      rwa [stmsBinders_cons] at fresh
    have names : FreshNames Γ stm.patNames := own.sublist (by simp)
    obtain ⟨sub, fresh'⟩ := own.rest types
    have skips' : Skips space skip rest := fun s hs => skips s (List.mem_cons_of_mem _ hs)
    unfold lowerKernelStms
    rw [skips stm List.mem_cons_self]
    cases loads : space.affineRead stm with
    | some read =>
      obtain ⟨v, hv, hoisted⟩ :=
        pending read (mem_affineReads.mpr ⟨stm, List.mem_cons_self, loads⟩)
      refine (ih later eval₂ (stands.load atPoint loads first eval₁ hv hoisted) fresh' skips'
        (atPoint.bound stands.covers names values)
        (pending.later.bound (.refl E) names types values fun _ _ => rfl)).weaken ?_
      exact fun E' ws c _ h => ⟨h.1, h.2.1, h.2.2.mono sub⟩
    | none =>
      refine .bind ((lowerStm_runs calls stm Γ Γ₁ ctx ρ ρ₁ E first eval₁ stands
        (own.sublist (List.sublist_append_left _ _))).returns
          (lowerStm_rebinds cfg prog calleeOf stm ctx)) fun c E₁ sub₁ hc => ?_
      obtain ⟨⟨stands₁, kept⟩, rebinds⟩ := hc
      refine (ih later eval₂ stands₁ fresh' skips' (atPoint.bound stands.covers names values)
        (pending.later.bound sub₁ names types values fun read hread =>
          rebinds.kept _ (affineRead_apart own.1 hread))).weaken ?_
      exact fun E' ws c' _ h => ⟨h.1, h.2.1, kept.trans (h.2.2.mono sub)⟩

/-- The loads at gtids that are to come are bound to values of their types. -/
def PendingTyped (space : SegSpace) (Γ : Types) (stms : List Stm) (c : Ctx) : Prop :=
  ∀ read ∈ space.affineReads stms, ∃ v elem shape, c read.result = some v ∧
    Γ read.array = some (.array elem shape) ∧ HasType v elem

theorem PendingTyped.bound {Γ Γ' : Types} {stm : Stm} {rest : List Stm} {c c' : Ctx}
    (h : PendingTyped space Γ (stm :: rest) c) (sub : Γ.Sub Γ')
    (same : ∀ read ∈ space.affineReads rest, c' read.result = c read.result) :
    PendingTyped space Γ' rest c' := by
  intro read hread
  obtain ⟨stm', hstm', loads⟩ := mem_affineReads.mp hread
  obtain ⟨v, elem, shape, hv, array, type⟩ :=
    h read (mem_affineReads.mpr ⟨stm', List.mem_cons_of_mem _ hstm', loads⟩)
  exact ⟨v, elem, shape, (same read hread).trans hv, sub _ _ array, type⟩

theorem typed_load {Γ Γ' : Types} {ctx : Ctx} (typed : ctx.Related HasTy Γ) {stm : Stm}
    {read : AffineRead} (loads : space.affineRead stm = some read)
    (type : typeStm prog stm Γ = some Γ') {v : Value} {elem : PrimType} {shape : List SubExp}
    (hv : ctx read.result = some v) (array : Γ read.array = some (.array elem shape))
    (hasType : HasType v elem) : ctx.Related HasTy Γ' := by
  obtain ⟨pat, arr, dims, used, rfl, _, rfl⟩ := affineRead_some loads
  obtain ⟨t, shape', array', rfl⟩ := typeLoad type
  cases array.symm.trans array'
  intro x ty hx
  by_cases eq : x = pat.name
  · rw [eq, Binding.insert_self] at hx
    cases hx
    exact ⟨v, eq ▸ hv, hasType⟩
  · rw [Binding.insert_of_ne _ _ eq] at hx
    exact typed x ty hx

theorem lowerKernelStms_accepts {stms : List Stm} {Γ Γ' : Types} {ctx : Ctx}
    (type : typeStms prog stms Γ = some Γ') (typed : ctx.Related HasTy Γ)
    (fresh : FreshNames Γ (stmsBinders stms)) (skips : Skips space skip stms)
    (pending : PendingTyped space Γ stms ctx) :
    (lowerKernelStms cfg prog calleeOf stms skip ctx).Accepts fun c => c.Related HasTy Γ' := by
  induction stms generalizing Γ ctx with
  | nil =>
    cases type
    unfold lowerKernelStms
    exact .pure typed
  | cons stm rest ih =>
    rw [typeStms] at type
    obtain ⟨Γ₁, first, later⟩ := Option.bind_eq_some_iff.mp type
    obtain ⟨tys, types⟩ := typeStm_binds first
    rw [stmsBinders_cons] at fresh
    obtain ⟨sub, fresh'⟩ := fresh.rest types
    have skips' : Skips space skip rest := fun s hs => skips s (List.mem_cons_of_mem _ hs)
    unfold lowerKernelStms
    rw [skips stm List.mem_cons_self]
    cases loads : space.affineRead stm with
    | some read =>
      obtain ⟨v, elem, shape, hv, array, hasType⟩ :=
        pending read (mem_affineReads.mpr ⟨stm, List.mem_cons_self, loads⟩)
      exact ih later (typed_load typed loads first hv array hasType) fresh' skips'
        (pending.bound sub fun _ _ => rfl)
    | none =>
      refine .bind ((lowerStm_accepts stm Γ Γ₁ ctx first typed
        (fresh.sublist (List.sublist_append_left _ _))).returns
          (lowerStm_rebinds cfg prog calleeOf stm ctx)) fun c hc => ?_
      obtain ⟨⟨typed₁, _⟩, rebinds⟩ := hc
      exact ih later typed₁ fresh' skips' (pending.bound sub fun read hread =>
        rebinds.kept _ (affineRead_apart fresh.1 hread))

end Lowering

end FutharkMlir
