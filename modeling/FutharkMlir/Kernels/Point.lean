import FutharkMlir.Kernels.Domain
import FutharkMlir.Kernels.Generic
import FutharkMlir.Kernels.Statements

namespace FutharkMlir

variable {F : Type}

theorem insertAll_zip {α : Type} {R : α → Value → Prop} (f : α → VName) {xs : List α}
    {vs : List Value} (h : List.Forall₂ R xs (vs.take xs.length)) (nodup : (xs.map f).Nodup)
    (ctx : Ctx) : ∀ x ∈ xs, ∃ v,
      ctx.insertAll ((xs.zip vs).map fun q => (f q.1, q.2)) (f x) = some v ∧ R x v := by
  induction xs generalizing ctx vs with
  | nil => simp
  | cons y xs ih =>
    cases vs with
    | nil => cases h
    | cons w vs =>
      rw [List.length_cons, List.take_succ_cons] at h
      obtain ⟨head, rest⟩ := List.forall₂_cons.mp h
      rw [List.map_cons, List.nodup_cons] at nodup
      refine List.forall_mem_cons.mpr ⟨⟨w, ?_, head⟩, ih rest nodup.2 _⟩
      rw [List.zip_cons_cons, List.map_cons, Ctx.insertAll]
      rw [Ctx.insertAll_of_not_mem, Ctx.insert_self]
      rw [zip_map_fst]
      intro member
      obtain ⟨q, hq, eq⟩ := List.mem_map.mp member
      exact nodup.1 (eq ▸ (List.of_mem_zip hq).1)

/-- A kernel at a point of its space: the types and the values that its parts bind. -/
structure KernelAt (prog : Prog) (fl : FloatOps F)
    (call : String → List (FVal F) → Option (List (FVal F))) (space : SegSpace)
    (bounds : List (IntType × Nat)) (stms : List Stm) (result : List SubExp) (Γ : Types)
    (ρ : Store F) (p : List Nat) (ts : List PrimType) (vals : List (FVal F)) (Γ₁ Γ₂ : Types)
    (ρ₁ ρ₂ : Store F) : Prop where
  gtidTypes : Γ.bind (space.dims.map Prod.fst) (((bounds.map Prod.fst).map .int).map .prim) =
    some Γ₁
  gtids : ρ.bind (space.dims.map Prod.fst) ((gtidValues bounds p).map .prim) = some ρ₁
  stmTypes : typeStms prog stms Γ₁ = some Γ₂
  stms : evalStms fl call stms ρ₁ = some ρ₂
  resultTypes : result.mapM (typeSubExp Γ₂) = some ts
  results : result.mapM (evalSubExp fl ρ₂) = some vals

section Body

variable (cfg : Config) {prog : Prog} {W : World F} {E : Env F} {ctx : Ctx} {Γ Γ₁ Γ₂ : Types}
  {ρ ρ₁ ρ₂ : Store F} {call : String → List (FVal F) → Option (List (FVal F))} {space : SegSpace}
  {bounds : List (IntType × Nat)} {stms : List Stm} {result : List SubExp} {ts : List PrimType}
  {p : List Nat} {vals : List (FVal F)}

theorem kernel_at {fl : FloatOps F} (stands : Stands E ctx Γ ρ)
    (type : typeKernel prog Γ space (.mk stms result) = some ts)
    (hspace : evalSpace fl ρ space = some bounds)
    (eval : evalKernel fl call space bounds (.mk stms result) ρ p = some vals) :
    ∃ Γ₁ Γ₂ ρ₁ ρ₂, KernelAt prog fl call space bounds stms result Γ ρ p ts vals Γ₁ Γ₂ ρ₁ ρ₂ := by
  rw [typeKernel] at type
  rw [evalKernel] at eval
  obtain ⟨gs, hgs, type⟩ := Option.bind_eq_some_iff.mp type
  obtain ⟨Γ₁, gtidTypes, type⟩ := Option.bind_eq_some_iff.mp type
  obtain ⟨ρ₁, gtids, eval⟩ := Option.bind_eq_some_iff.mp eval
  rw [typeBody] at type
  rw [evalBody] at eval
  obtain ⟨Γ₂, stmTypes, resultTypes⟩ := Option.bind_eq_some_iff.mp type
  obtain ⟨ρ₂, hstms, results⟩ := Option.bind_eq_some_iff.mp eval
  rw [stands.space_types hgs hspace] at gtidTypes
  exact ⟨Γ₁, Γ₂, ρ₁, ρ₂, gtidTypes, gtids, stmTypes, hstms, resultTypes, results⟩

theorem AtPoint.gtids {fl : FloatOps F} (hspace : evalSpace fl ρ space = some bounds)
    (inside : InBounds (bounds.map Prod.snd) p) (nodup : (space.dims.map Prod.fst).Nodup)
    (h : ρ.bind (space.dims.map Prod.fst) ((gtidValues bounds p).map .prim) = some ρ₁) :
    AtPoint fl space ρ₁ p :=
  fun _ _ named => gtid_value (evalSpace_small hspace) inside nodup h named

/-- Run on the elements of the loads at the point, the body of the kernel computes its
results there. -/
theorem lowerSegOpKernelBody_runs (calls : CallsAgree W prog call) {ds : IterationSpace}
    (k : KernelAt prog W.machine.toFloatOps call space bounds stms result Γ ρ p ts vals Γ₁ Γ₂ ρ₁ ρ₂)
    (hspace : evalSpace W.machine.toFloatOps ρ space = some bounds)
    (inside : InBounds (bounds.map Prod.snd) p) (stands : Stands E ctx Γ ρ)
    (spans : Spans E 0 space.dims bounds ds)
    (fresh : FreshNames Γ (space.dims.map Prod.fst ++ stmsBinders stms))
    (single : ∀ stm ∈ stms, ∃ elem exp, stm = .mk [elem] exp) {args : List Value}
    (loads : List.Forall₂ (fun read v => Hoisted Γ ρ p E v read) (space.affineReads stms)
      (args.take (space.affineReads stms).length)) :
    Lower.Runs W p E (lowerSegOpKernelBody cfg args (space.affineReads stms) ds
      (lowerKernelStms cfg prog calleeOf stms) result ctx) fun E' r =>
        (∃ ps, vals = ps.map .prim ∧ Computes E' r.1 ps ts) ∧ Kept Γ ctx r.2 := by
  have names : FreshNames Γ ((space.affineReads stms).map AffineRead.result) :=
    fresh.sublist ((affineReads_results space stms).trans (List.sublist_append_right _ _))
  have gtidNames : FreshNames Γ (space.dims.map Prod.fst) :=
    fresh.sublist (List.sublist_append_left _ _)
  have length : p.length = bounds.length := by rw [inside.length, List.length_map]
  unfold lowerSegOpKernelBody
  refine .bind (.liftExcept _) fun pairs E₁ _ hpairs => ?_
  obtain ⟨rfl, hpairs⟩ := hpairs
  have bound := insertAll_zip AffineRead.result loads names.1 ctx
  rw [zipEqual_eq cfg hpairs]
  rw [zip_map_fst] at bound ⊢
  have kept : Kept Γ ctx (ctx.insertAll ((List.map AffineRead.result _).zip args)) :=
    .insertAll names ctx
  have stands' := stands.kept kept
  refine .bind (.lift (bindGtids_runs spans stands' rfl length k.gtidTypes k.gtids))
    fun c E₂ sub₂ hc => ?_
  have pending : Pending space Γ₁ ρ₁ p E₂ stms c := by
    intro read hread
    obtain ⟨v, hv, hoisted⟩ := bound read hread
    refine ⟨v, ?_, (hoisted.mono sub₂).bound gtidNames k.gtidTypes k.gtids⟩
    rw [hc.2 _ fun member => ?_, hv]
    have result := (affineReads_results space stms).subset (List.mem_map_of_mem hread)
    exact (List.nodup_append.mp fresh.1).2.2 _ member _ result rfl
  have nodup := (List.nodup_append.mp fresh.1).2.1
  refine .bind (lowerKernelStms_runs cfg calls k.stmTypes k.stms hc.1 (fresh.bind k.gtidTypes)
    (skips_affineReads space single nodup)
    (.gtids hspace inside gtidNames.1 k.gtids) pending) fun c' E₃ sub₃ hc' => ?_
  refine .bind (.lift ((lowerSubExps_runs hc'.1.rep k.results).and
    (lowerSubExps_accepts hc'.1.typed k.resultTypes))) fun returns E₄ sub₄ h => ?_
  have outer : Kept Γ ctx c' := by
    refine kept.trans (.trans (fun x hx => ?_) (hc'.2.mono (gtidNames.extends_bind k.gtidTypes)))
    exact hc.2 x fun member => hx (gtidNames.2 x member)
  exact .pure ⟨rfl, computes_of h.1 h.2, outer⟩

end Body

section Inputs

variable {W : World F} {point : List Nat} {E E' : Env F} {ctx : Ctx} {Γ : Types} {ρ : Store F}
  {extents p : List Nat}

def Loaded (Γ : Types) (ρ : Store F) (extents : List Nat) (E : Env F) (read : AffineRead)
    (v : Value) : Prop :=
  ∃ a elem shape, ρ read.array = some (.array a) ∧ Γ read.array = some (.array elem shape) ∧
    a.shape = read.indexMap.project extents ∧ Represents E v (.array a) ∧
    HasTy v (.array elem shape)

theorem Loaded.mono {read : AffineRead} {v : Value} (h : Loaded Γ ρ extents E read v)
    (sub : E.Sub E') : Loaded Γ ρ extents E' read v := by
  obtain ⟨a, elem, shape, stored, array, same, rep, type⟩ := h
  exact ⟨a, elem, shape, stored, array, same, rep.mono sub, type⟩

theorem lookups_loaded (stands : Stands E ctx Γ ρ) {space : SegSpace}
    {bounds : List (IntType × Nat)} {stms : List Stm} (fill : ReadsFill space bounds stms Γ ρ) :
    Emit.Runs W point E (lookups ctx ((space.affineReads stms).map AffineRead.array)) fun E' vs =>
      List.Forall₂ (Loaded Γ ρ (bounds.map Prod.snd) E') (space.affineReads stms) vs := by
  have runs : Emit.Runs W point E (((space.affineReads stms).map AffineRead.array).mapM ctx.lookup)
      fun E' vs => List.Forall₂ (fun v read => Loaded Γ ρ (bounds.map Prod.snd) E' read v) vs
        (space.affineReads stms) := by
    refine Emit.Effects.mapM (fun _ _ _ _ sub h => h.mono sub) ?_
    rw [List.forall₂_map_left_iff, List.forall₂_same]
    intro read hread E' sub
    obtain ⟨a, elem, shape, stored, array, same⟩ := fill read hread
    obtain ⟨v, hv, rep⟩ := stands.rep _ _ stored
    obtain ⟨w, hw, type⟩ := stands.typed _ _ array
    cases hv.symm.trans hw
    rw [Ctx.lookup, hv]
    exact .pure ⟨rfl, a, elem, shape, stored, array, same, rep.mono sub, type⟩
  exact runs.weaken fun E' ws vs _ h => ⟨h.1, h.2.flip⟩

theorem inBounds_project {m : AffineMap} (inside : InBounds extents p)
    (dims : ∀ d ∈ m.results, d < extents.length) : InBounds (m.project extents) (m.project p) := by
  unfold InBounds AffineMap.project
  rw [List.forall₂_map_left_iff, List.forall₂_map_right_iff, List.forall₂_same]
  intro d hd
  have lt := dims d hd
  have lt' : d < p.length := by rwa [inside.length]
  have below := (List.forall₂_iff_get.mp inside).2 d lt lt'
  simpa [lt, lt'] using below

/-- The arguments of the block hold the elements of the loads at the point. -/
theorem hoisted_args {reads : List AffineRead} {inputs args : List Value} {xs : List (MVal F)}
    (loaded : List.Forall₂ (Loaded Γ ρ extents E) reads inputs) (seen : inputs.mapM E = some xs)
    (inside : InBounds extents p)
    (dims : ∀ read ∈ reads, ∀ d ∈ read.indexMap.results, d < extents.length)
    (types : args.map Value.ty = inputs.map fun v => v.ty.elemOrSelf)
    (values : args.mapM E' = some (inputsAt ((reads.map AffineRead.indexMap).zip xs) p)) :
    List.Forall₂ (fun read v => Hoisted Γ ρ p E' v read) reads args := by
  rw [List.mapM_eq_some] at seen values
  induction loaded generalizing args xs with
  | nil =>
    cases args with
    | nil => exact .nil
    | cons v args => cases types
  | @cons read input reads inputs hin _ ih =>
    cases seen with
    | @cons _ x _ xs hx hxs =>
      cases args with
      | nil => cases types
      | cons v args =>
        obtain ⟨head, tail⟩ := List.forall_mem_cons.mp dims
        rw [List.map_cons, List.map_cons] at types
        obtain ⟨ty, tys⟩ := List.cons.inj types
        rw [List.map_cons, List.zip_cons_cons, inputsAt, List.map_cons, List.forall₂_cons] at values
        refine .cons ?_ (ih hxs tail tys values.2)
        obtain ⟨a, elem, shape, stored, array, same, rep, s, e, type, lowered, _⟩ := hin
        obtain ⟨t, s', e', value, type', _, _, elements⟩ := rep
        cases type.symm.trans type'
        cases hx.symm.trans value
        have within : InBounds a.shape (read.indexMap.project p) := by
          rw [same]
          exact inBounds_project inside head
        obtain ⟨element, elemTy⟩ := elements _ within
        refine ⟨a, elem, shape, stored, array, ⟨?_, ?_⟩, ?_⟩
        · rw [← element]
          exact values.1
        · rw [ty, type, elemTy]
          rfl
        · rw [HasType, lowerTy, lowered, ty, type]
          rfl

end Inputs

end FutharkMlir
