import FutharkMlir.Kernels.Point

namespace FutharkMlir

variable {F : Type} {Γ Γ₁ : Types} {ctx : Ctx} {space : SegSpace} {stms : List Stm}

theorem Emit.Accepts.andReturns {α : Type} {m : Emit α} {Q R : α → Prop} (hm : m.Accepts Q)
    (hr : m.Returns R) : m.Accepts fun a => Q a ∧ R a := by
  intro ip
  obtain ⟨a, ip', run, holds⟩ := hm ip
  exact ⟨a, ip', run, holds, hr ip a ip' run⟩

theorem toShapeDim_typed {se : SubExp} {t : IntType} (h : typeSubExp Γ se = some (.int t)) :
    ∃ s, toShapeDim se = .ok s := by
  cases se with
  | var x => exact ⟨_, rfl⟩
  | const c =>
    cases c with
    | int c => exact ⟨_, rfl⟩
    | float c => cases h
    | bool b => cases h
    | unit => cases h

def DimsTyped (ds : IterationSpace) (gs : List IntType) : Prop :=
  List.Forall₂ (fun d g => HasType d.value (.int g)) ds gs

theorem lowerSegDims_accepts (typed : ctx.Related HasTy Γ) {dims : List (VName × SubExp)}
    {gs : List IntType} (i : Nat)
    (h : (dims.map Prod.snd).mapM (fun se => typeFixed Γ (.fix se)) = some gs) :
    (lowerSegDims ctx i dims).Accepts fun ds => DimsTyped ds gs := by
  rw [List.mapM_eq_some, List.forall₂_map_left_iff] at h
  induction h generalizing i with
  | nil => exact .pure .nil
  | @cons p g dims gs hg _ ih =>
    have type := typeFixed_some hg
    obtain ⟨s, extent⟩ := toShapeDim_typed type
    unfold lowerSegDims
    refine .bind (lowerSubExp_accepts typed type) fun v hv => .bindExcept extent ?_
    exact .bind (ih (i + 1)) fun ds hds => .pure (.cons hv hds)

theorem toShapeType_typed {dims : List (VName × SubExp)} {gs : List IntType}
    (h : (dims.map Prod.snd).mapM (fun se => typeFixed Γ (.fix se)) = some gs) :
    ∃ shape, toShapeType (dims.map Prod.snd) = .ok shape := by
  rw [List.mapM_eq_some] at h
  unfold toShapeType
  generalize dims.map Prod.snd = ses at h
  induction h with
  | nil => exact ⟨[], rfl⟩
  | cons hg _ ih =>
    obtain ⟨s, extent⟩ := toShapeDim_typed (typeFixed_some hg)
    obtain ⟨shape, hshape⟩ := ih
    exact ⟨s :: shape, by rw [List.mapM_cons, extent, hshape]; rfl⟩

theorem typeSubExps_ne_unit {ses : List SubExp} {ts : List PrimType}
    (h : ses.mapM (typeSubExp Γ) = some ts) : ∀ t ∈ ts, t ≠ .unit := by
  rw [List.mapM_eq_some] at h
  induction h with
  | nil => simp
  | @cons se t _ _ ht _ ih =>
    refine List.forall_mem_cons.mpr ⟨?_, ih⟩
    rintro rfl
    cases se with
    | const c => cases c <;> cases ht
    | var x =>
      obtain ⟨ty, _, scalar⟩ := Option.bind_eq_some_iff.mp ht
      rw [Ty.scalar_eq scalar] at scalar
      cases scalar

theorem segOpTypes_accepts {dims : List (VName × SubExp)} {shape : List Int}
    (hshape : toShapeType (dims.map Prod.snd) = .ok shape) {ts : List PrimType}
    (lowers : ∀ t ∈ ts, t ≠ .unit) : ∃ tys, segOpTypes dims (ts.map .prim) = .ok tys ∧
      tys.length = ts.length := by
  induction ts with
  | nil => exact ⟨[], rfl, rfl⟩
  | cons t ts ih =>
    obtain ⟨head, rest⟩ := List.forall_mem_cons.mp lowers
    obtain ⟨tys, htys, length⟩ := ih rest
    have lowered : ∃ e, lowerPrimType t = .ok e := by
      cases t with
      | unit => exact (head rfl).elim
      | int t => exact ⟨_, rfl⟩
      | float t => exact ⟨_, rfl⟩
      | bool => exact ⟨_, rfl⟩
    obtain ⟨e, he⟩ := lowered
    refine ⟨.tensor shape e :: tys, ?_, congrArg (· + 1) length⟩
    rw [segOpTypes] at htys ⊢
    rw [List.map_cons, List.mapM_cons, htys]
    simp only [lowerSegOpBaseType, he, hshape]
    rfl

theorem mapM_accepts {α β : Type} {f : α → Emit β} {xs : List α}
    (h : ∀ x ∈ xs, (f x).Accepts fun _ => True) :
    (xs.mapM f).Accepts fun ys => ys.length = xs.length := by
  refine (Emit.Accepts.mapM (R := fun _ _ => True) (List.forall₂_same.mpr h)).weaken ?_
  exact fun ys hys => hys.length_eq

theorem spaceSizes_accepts (ds : List Dim) : (spaceSizes ds).Accepts fun _ => True :=
  (mapM_accepts fun _ _ => Emit.Accepts.create1.weaken fun _ _ => trivial).weaken
    fun _ _ => trivial

theorem tensorEmpties_accepts (tys : List MlirTy) (sizes : List Value) :
    (tensorEmpties tys sizes).Accepts fun vs => vs.length = tys.length :=
  mapM_accepts fun _ _ => Emit.Accepts.create1.weaken fun _ _ => trivial

/-- The gtids are bound to values of the types of the bounds. -/
theorem bindGtids_accepts (typed : ctx.Related HasTy Γ) {i : Nat} {ds : IterationSpace}
    {dims : List (VName × SubExp)} {gs : List IntType} (names : Names i dims ds)
    (dimsTyped : DimsTyped ds gs)
    (types : Γ.bind (dims.map Prod.fst) ((gs.map .int).map .prim) = some Γ₁) :
    (bindGtids ds ctx).Accepts fun c =>
      c.Related HasTy Γ₁ ∧ ∀ x ∉ dims.map Prod.fst, c x = ctx x := by
  induction dimsTyped generalizing i dims ctx Γ with
  | nil =>
    cases dims with
    | nil =>
      cases types
      exact .pure ⟨typed, fun _ _ => rfl⟩
    | cons p dims => cases names.length
  | @cons d g ds gs hd _ ih =>
    cases dims with
    | nil => cases names.length
    | cons p dims =>
      obtain ⟨⟨id, index⟩, rest⟩ := Names.cons_iff.mp names
      unfold bindGtids
      refine .bind .create1 fun idx _ => .bind .create1 fun val hval => ?_
      have bound : (ctx.insert d.id val).Related HasTy (Γ.insert p.1 (.prim (.int g))) := by
        rw [id]
        exact typed.insert (show HasType val (.int g) by rw [HasType, hval, hd])
      refine (ih bound rest types).weaken fun c hc => ⟨hc.1, fun x hx => ?_⟩
      rw [List.map_cons, List.mem_cons, not_or] at hx
      rw [hc.2 x hx.2, id, Ctx.insert_of_ne _ _ hx.1]

/-- The value has the type of the array that a load at gtids reads. -/
def ReadTyped (Γ : Types) (read : AffineRead) (v : Value) : Prop :=
  ∃ elem shape, Γ read.array = some (.array elem shape) ∧ HasTy v (.array elem shape)

/-- The value has the type of the element that a load at gtids reads. -/
def ElementTyped (Γ : Types) (read : AffineRead) (v : Value) : Prop :=
  ∃ elem shape, Γ read.array = some (.array elem shape) ∧ HasType v elem

theorem lookups_accepts (typed : ctx.Related HasTy Γ) {reads : List AffineRead}
    (arrays : ∀ read ∈ reads, ∃ elem shape, Γ read.array = some (.array elem shape)) :
    (lookups ctx (reads.map AffineRead.array)).Accepts fun vs =>
      List.Forall₂ (ReadTyped Γ) reads vs := by
  have each : (lookups ctx (reads.map AffineRead.array)).Accepts fun vs =>
      List.Forall₂ (fun v read => ReadTyped Γ read v) vs reads := by
    refine .mapM ?_
    rw [List.forall₂_map_left_iff, List.forall₂_same]
    intro read hread
    obtain ⟨elem, shape, array⟩ := arrays read hread
    obtain ⟨v, hv, type⟩ := typed _ _ array
    rw [Ctx.lookup, hv]
    exact .pure ⟨elem, shape, array, type⟩
  exact each.weaken fun vs hvs => hvs.flip

theorem elements_typed {reads : List AffineRead} {inputs args outputs : List Value}
    (typed : List.Forall₂ (ReadTyped Γ) reads inputs)
    (types : args.map Value.ty = (inputs ++ outputs).map fun v => v.ty.elemOrSelf) :
    List.Forall₂ (ElementTyped Γ) reads (args.take reads.length) := by
  induction typed generalizing args with
  | nil => exact .nil
  | @cons read v reads inputs hv _ ih =>
    cases args with
    | nil => cases types
    | cons arg args =>
      rw [List.cons_append, List.map_cons, List.map_cons] at types
      obtain ⟨ty, tys⟩ := List.cons.inj types
      rw [List.length_cons, List.take_succ_cons]
      refine .cons ?_ (ih tys)
      obtain ⟨elem, shape, array, s, e, type, lowered, _⟩ := hv
      exact ⟨elem, shape, array, hasType_of lowered (by rw [ty, type]; rfl)⟩

/-- Without assertions, a range may be zipped with a longer one. -/
theorem zipEqual_release {α β : Type} {xs : List α} {ys : List β} (le : xs.length ≤ ys.length) :
    zipEqual releaseConfig xs ys = .ok (xs.zip ys) := by
  unfold zipEqual
  split
  · rfl
  · rw [if_neg (by decide), if_neg (Nat.not_lt.mpr le)]

variable {prog : Prog}

/-- The body of a kernel is accepted, and yields values of the types of its results. -/
theorem lowerSegOpKernelBody_accepts {result : List SubExp} {ts : List PrimType}
    {gs : List IntType} {Γ₂ : Types} {ds : IterationSpace} (typed : ctx.Related HasTy Γ)
    (gtidTypes : Γ.bind (space.dims.map Prod.fst) ((gs.map .int).map .prim) = some Γ₁)
    (stmTypes : typeStms prog stms Γ₁ = some Γ₂)
    (resultTypes : result.mapM (typeSubExp Γ₂) = some ts) (names : Names 0 space.dims ds)
    (dimsTyped : DimsTyped ds gs)
    (fresh : FreshNames Γ (space.dims.map Prod.fst ++ stmsBinders stms))
    (single : ∀ stm ∈ stms, ∃ elem exp, stm = .mk [elem] exp) {args : List Value}
    (elements : List.Forall₂ (ElementTyped Γ) (space.affineReads stms)
      (args.take (space.affineReads stms).length)) :
    (lowerSegOpKernelBody releaseConfig args (space.affineReads stms) ds
      (lowerKernelStms releaseConfig prog calleeOf stms) result ctx).Accepts fun r =>
        List.Forall₂ HasType r.1 ts ∧ r.2.Related HasTy Γ₂ := by
  have results : FreshNames Γ ((space.affineReads stms).map AffineRead.result) :=
    fresh.sublist ((affineReads_results space stms).trans (List.sublist_append_right _ _))
  have gtidNames : FreshNames Γ (space.dims.map Prod.fst) :=
    fresh.sublist (List.sublist_append_left _ _)
  have nodup := (List.nodup_append.mp fresh.1).2.1
  have enough : (space.affineReads stms).length ≤ args.length := by
    rw [elements.length_eq, List.length_take]
    exact Nat.min_le_right _ _
  have bound := insertAll_zip AffineRead.result elements results.1 ctx
  unfold lowerSegOpKernelBody
  refine .bind (.liftExcept (zipEqual_release enough) rfl) fun pairs hpairs => ?_
  subst hpairs
  rw [zip_map_fst] at bound ⊢
  have kept : Kept Γ ctx (ctx.insertAll ((List.map AffineRead.result _).zip args)) :=
    .insertAll results ctx
  refine .bind (.lift (bindGtids_accepts (typed.congr kept) names dimsTyped gtidTypes))
    fun c hc => ?_
  have pending : PendingTyped space Γ₁ stms c := by
    intro read hread
    obtain ⟨v, hv, elem, shape, array, type⟩ := bound read hread
    refine ⟨v, elem, shape, ?_, gtidNames.extends_bind gtidTypes _ _ array, type⟩
    rw [hc.2 _ fun member => ?_, hv]
    have result := (affineReads_results space stms).subset (List.mem_map_of_mem hread)
    exact (List.nodup_append.mp fresh.1).2.2 _ member _ result rfl
  refine .bind (lowerKernelStms_accepts releaseConfig stmTypes hc.1 (fresh.bind gtidTypes)
    (skips_affineReads space single nodup) pending) fun c' hc' => ?_
  refine .bind (.lift (lowerSubExps_accepts hc' resultTypes)) fun returns hreturns => ?_
  exact .pure ⟨hreturns, hc'⟩

end FutharkMlir
