import FutharkMlir.Kernels.Loads
import FutharkMlir.Lib.Zip
import FutharkMlir.Simulation.Scalars

namespace FutharkMlir

variable {F : Type}

/-- A bound of a space: the integer type its gtid has and the extent. -/
def evalBound (fl : FloatOps F) (ρ : Store F) (se : SubExp) : Option (IntType × Nat) :=
  match evalPrim fl ρ se with
  | some (.int t v) => if v.msb then none else some (t, v.toNat)
  | _ => none

def evalSpace (fl : FloatOps F) (ρ : Store F) (space : SegSpace) : Option (List (IntType × Nat)) :=
  (space.dims.map Prod.snd).mapM (evalBound fl ρ)

theorem evalBound_some {fl : FloatOps F} {ρ : Store F} {se : SubExp} {t : IntType} {n : Nat} :
    evalBound fl ρ se = some (t, n) ↔
      ∃ v : BitVec t.getWidth, evalPrim fl ρ se = some (.int t v) ∧ v.msb = false ∧ v.toNat = n := by
  unfold evalBound
  constructor
  · intro h
    split at h
    · rename_i t' v eq
      obtain ⟨nonneg, h⟩ := Option.ite_none_left_eq_some.mp h
      cases h
      exact ⟨v, eq, Bool.eq_false_iff.mpr nonneg, rfl⟩
    · cases h
  · rintro ⟨v, eq, nonneg, rfl⟩
    rw [eq]
    simp [nonneg]

/-- A dimension stands for a name and a bound at a position. -/
structure Dim.StandsFor (E : Env F) (d : Dim) (i : Nat) (name : VName) (se : SubExp)
    (bound : IntType × Nat) : Prop where
  id : d.id = name
  index : d.index = i
  isDynamic : ∃ s, toShapeDim se = .ok s ∧ d.isDynamic = FutharkMlir.isDynamic s ∧
    (FutharkMlir.isDynamic s = false → s = bound.2)
  value : ∃ v : BitVec bound.1.getWidth, v.msb = false ∧ v.toNat = bound.2 ∧
    Represents E d.value (.prim (.int bound.1 v))

/-- The lowered dimensions stand for those of the space, from a position on. -/
def Spans (E : Env F) : Nat → List (VName × SubExp) → List (IntType × Nat) → IterationSpace → Prop
  | _, [], [], [] => True
  | i, p :: dims, b :: bounds, d :: ds => d.StandsFor E i p.1 p.2 b ∧ Spans E (i + 1) dims bounds ds
  | _, _, _, _ => False

variable {W : World F} {point : List Nat} {E : Env F} {ctx : Ctx} {ρ : Store F}

theorem toShapeDim_static {fl : FloatOps F} {se : SubExp} {s : Int} {b : IntType × Nat}
    (h : toShapeDim se = .ok s) (eval : evalBound fl ρ se = some b) :
    isDynamic s = false → s = b.2 := by
  obtain ⟨t, n⟩ := b
  obtain ⟨v, value, nonneg, rfl⟩ := evalBound_some.mp eval
  intro static
  cases se with
  | var x =>
    cases h
    cases static
  | const c =>
    cases c with
    | int c =>
      obtain ⟨t', c⟩ := c
      cases h
      cases value
      have le : t'.getWidth ≤ 64 := by cases t' <;> decide
      rw [IntValue.getValue, BitVec.toInt_signExtend_of_le le, BitVec.toInt_eq_toNat_of_msb nonneg]
    | float c => cases h
    | bool b => cases h
    | unit => cases h

namespace Spans

theorem mono {E' : Env F} {i : Nat} {dims : List (VName × SubExp)} {bounds : List (IntType × Nat)}
    {ds : IterationSpace} (h : Spans E i dims bounds ds) (sub : E.Sub E') :
    Spans E' i dims bounds ds := by
  induction ds generalizing i dims bounds with
  | nil =>
    cases dims <;> cases bounds <;> exact h
  | cons d ds ih =>
    cases dims with
    | nil => cases bounds <;> exact h.elim
    | cons p dims =>
      cases bounds with
      | nil => exact h.elim
      | cons b bounds =>
        obtain ⟨⟨id, index, dyn, v, msb, toNat, value⟩, rest⟩ := h
        exact ⟨⟨id, index, dyn, v, msb, toNat, value.mono sub⟩, ih rest⟩

theorem length {i : Nat} {dims : List (VName × SubExp)} {bounds : List (IntType × Nat)}
    {ds : IterationSpace} (h : Spans E i dims bounds ds) :
    ds.length = dims.length ∧ bounds.length = dims.length := by
  induction ds generalizing i dims bounds with
  | nil =>
    cases dims <;> cases bounds <;> first | exact ⟨rfl, rfl⟩ | exact h.elim
  | cons d ds ih =>
    cases dims with
    | nil => cases bounds <;> exact h.elim
    | cons p dims =>
      cases bounds with
      | nil => exact h.elim
      | cons b bounds =>
        obtain ⟨h₁, h₂⟩ := ih h.2
        exact ⟨congrArg (· + 1) h₁, congrArg (· + 1) h₂⟩

end Spans

theorem lowerSegDims_runs (rep : ctx.Represents E ρ) {dims : List (VName × SubExp)}
    {bounds : List (IntType × Nat)} (i : Nat)
    (eval : (dims.map Prod.snd).mapM (evalBound W.machine.toFloatOps ρ) = some bounds) :
    Emit.Runs W point E (lowerSegDims ctx i dims) fun E' ds => Spans E' i dims bounds ds := by
  rw [List.mapM_eq_some, List.forall₂_map_left_iff] at eval
  induction eval generalizing i E with
  | nil => exact .pure ⟨rfl, trivial⟩
  | @cons p b dims bounds hb _ ih =>
    obtain ⟨id, se⟩ := p
    obtain ⟨v, value, nonneg, eq⟩ := evalBound_some.mp hb
    unfold lowerSegDims
    refine .bind (lowerPrim_runs rep value) fun w E₁ sub₁ hw => ?_
    refine .bind (.liftExcept _) fun s E₂ sub₂ hs => ?_
    obtain ⟨rfl, hs⟩ := hs
    refine .bind (ih (rep.mono sub₁) (i + 1)) fun ds E₃ sub₃ hds => .pure ⟨rfl, ?_, hds⟩
    exact ⟨rfl, rfl, ⟨s, hs, rfl, toShapeDim_static hs hb⟩, v, nonneg, eq, hw.mono sub₃⟩

/-- The value is an integer that is this position or extent. -/
def StandsForNat (E : Env F) (v : Value) (n : Nat) : Prop :=
  ∃ (t : IntType) (x : BitVec t.getWidth), x.msb = false ∧ x.toNat = n ∧
    Represents E v (.prim (.int t x))

theorem Spans.sizes {i : Nat} {dims : List (VName × SubExp)} {bounds : List (IntType × Nat)}
    {ds : IterationSpace} (spans : Spans E i dims bounds ds) {shape : List Int}
    (hshape : List.Forall₂ (fun p s => toShapeDim p.2 = .ok s) dims shape) :
    ∃ ns, List.Forall₂ (fun d n => StandsForNat E d.value n) (ds.filter Dim.isDynamic) ns ∧
      resolveShape shape ns = some (bounds.map Prod.snd) := by
  induction hshape generalizing i bounds ds with
  | nil =>
    cases ds with
    | nil =>
      cases bounds with
      | nil => exact ⟨[], .nil, rfl⟩
      | cons b bounds => exact spans.elim
    | cons d ds => cases bounds <;> exact spans.elim
  | @cons p s dims shape hs _ ih =>
    cases ds with
    | nil => cases bounds <;> exact spans.elim
    | cons d ds =>
      cases bounds with
      | nil => exact spans.elim
      | cons b bounds =>
        obtain ⟨ns, sizes, resolved⟩ := ih spans.2
        obtain ⟨_, _, ⟨s', hs', dynamic, static⟩, v, msb, toNat, value⟩ := spans.1
        cases hs.symm.trans hs'
        cases dyn : FutharkMlir.isDynamic s with
        | true =>
          rw [dyn] at dynamic
          refine ⟨b.2 :: ns, ?_, ?_⟩
          · rw [List.filter_cons_of_pos dynamic]
            exact .cons ⟨b.1, v, msb, toNat, value⟩ sizes
          · rw [resolveShape, if_pos dyn]
            simp [resolved]
        | false =>
          rw [dyn] at dynamic
          refine ⟨ns, ?_, ?_⟩
          · rw [List.filter_cons_of_neg (by rw [dynamic]; decide)]
            exact sizes
          · have eq := static dyn
            subst eq
            rw [resolveShape.eq_def]
            simp [dyn, resolved]

def SizesOf (E : Env F) (sizes : List Value) (shape : List Int) (extents : List Nat) : Prop :=
  ∃ ns, List.Forall₂ (IsIndex E) sizes ns ∧ resolveShape shape ns = some extents

theorem resolveShape_fits {shape : List Int} {ns extents : List Nat}
    (h : resolveShape shape ns = some extents) : Fits shape extents := by
  induction shape generalizing ns extents with
  | nil =>
    cases ns with
    | nil =>
      cases h
      exact .nil
    | cons n ns => cases h
  | cons d shape ih =>
    rw [resolveShape.eq_def] at h
    by_cases dyn : isDynamic d = true
    · simp only [dyn, if_true] at h
      cases ns with
      | nil => cases h
      | cons n ns =>
        obtain ⟨rest, hrest, rfl⟩ := Option.map_eq_some_iff.mp h
        exact .cons (.inl dyn) (ih hrest)
    · simp only [dyn] at h
      obtain ⟨nonneg, h⟩ := Option.ite_none_left_eq_some.mp h
      obtain ⟨rest, hrest, rfl⟩ := Option.map_eq_some_iff.mp h
      exact .cons (.inr (Int.toNat_of_nonneg (Int.not_lt.mp nonneg)).symm) (ih hrest)

theorem Spans.shape {i : Nat} {dims : List (VName × SubExp)} {bounds : List (IntType × Nat)}
    {ds : IterationSpace} (spans : Spans E i dims bounds ds) :
    ∃ shape, toShapeType (dims.map Prod.snd) = .ok shape := by
  unfold toShapeType
  induction dims generalizing i bounds ds with
  | nil => exact ⟨[], rfl⟩
  | cons p dims ih =>
    cases ds with
    | nil => cases bounds <;> exact spans.elim
    | cons d ds =>
      cases bounds with
      | nil => exact spans.elim
      | cons b bounds =>
        obtain ⟨s, hs, _⟩ := spans.1.isDynamic
        obtain ⟨shape, hshape⟩ := ih spans.2
        exact ⟨s :: shape, by rw [List.map_cons, List.mapM_cons, hs, hshape]; rfl⟩

theorem spaceSizes_runs {i : Nat} {dims : List (VName × SubExp)} {bounds : List (IntType × Nat)}
    {ds : IterationSpace} (spans : Spans E i dims bounds ds) {shape : List Int}
    (hshape : toShapeType (dims.map Prod.snd) = .ok shape) :
    Emit.Runs W point E (spaceSizes ds) fun E' sizes =>
      SizesOf E' sizes shape (bounds.map Prod.snd) := by
  rw [toShapeType, Except.mapM_eq_ok, List.forall₂_map_left_iff] at hshape
  obtain ⟨ns, stands, resolved⟩ := spans.sizes hshape
  refine (Emit.Effects.mapM (R := IsIndex) (fun _ _ _ _ sub h => h.mono sub)
    (stands.imp fun d n h E' sub => ?_)).weaken fun E' ws sizes _ h => ⟨h.1, ns, h.2, resolved⟩
  obtain ⟨t, x, msb, toNat, value⟩ := h
  have position : (PVal.int t x : PVal F).toIndex = some n := by simp [PVal.toIndex, msb, toNat]
  exact (indexCast_runs (value.mono sub) position).weaken fun _ _ _ _ hu => ⟨hu.1, hu.2.1⟩

/-- A new tensor: its extents and the contents the machine leaves there. -/
def IsEmpty (W : World F) (extents : List Nat) (E : Env F) (v : Value) (ty : MlirTy) : Prop :=
  E v = some (.tensor ⟨extents, W.machine.contents ty⟩) ∧ v.ty = ty

theorem SizesOf.mono {E' : Env F} {sizes : List Value} {shape : List Int} {extents : List Nat}
    (h : SizesOf E sizes shape extents) (sub : E.Sub E') : SizesOf E' sizes shape extents := by
  obtain ⟨ns, hns, resolved⟩ := h
  exact ⟨ns, hns.imp fun _ _ h => h.mono sub, resolved⟩

theorem tensorEmpty_runs {sizes : List Value} {shape : List Int} {extents : List Nat}
    (h : SizesOf E sizes shape extents) (elem : ElemTy) :
    Emit.Runs W point E (tensorEmpty (.tensor shape elem) sizes) fun E' v =>
      IsEmpty W extents E' v (.tensor shape elem) := by
  obtain ⟨ns, indices, resolved⟩ := h
  obtain ⟨xs, seen, toIndex⟩ := IsIndex.mapM indices
  refine create1_runs seen ?_
  simp [evalOp, evalTensorOp, toIndex, resolved]

def tensorTypes (shape : List Int) (elems : List ElemTy) : List MlirTy :=
  elems.map fun e => .tensor shape e

theorem tensorEmpties_runs {sizes : List Value} {shape : List Int} {extents : List Nat}
    (h : SizesOf E sizes shape extents) (elems : List ElemTy) :
    Emit.Runs W point E (tensorEmpties (tensorTypes shape elems) sizes) fun E' vs =>
      List.Forall₂ (IsEmpty W extents E') vs (tensorTypes shape elems) := by
  refine Emit.Effects.mapM (fun _ _ _ _ sub h => ⟨sub _ _ h.1, h.2⟩) ?_
  rw [List.forall₂_same]
  intro ty hty E' sub
  obtain ⟨e, _, rfl⟩ := List.mem_map.mp hty
  exact tensorEmpty_runs (h.mono sub) e

theorem lowerPrims_runs (rep : ctx.Represents E ρ) {ses : List SubExp} {ps : List (PVal F)}
    (h : ses.mapM (evalPrim W.machine.toFloatOps ρ) = some ps) :
    Emit.Runs W point E (lowerSubExps ctx ses) fun E' vs =>
      List.Forall₂ (fun v p => Represents E' v (.prim p)) vs ps := by
  refine Emit.Effects.mapM (fun _ _ _ _ sub h => h.mono sub) ?_
  exact (List.mapM_eq_some.mp h).imp fun _ _ hp E' sub => lowerPrim_runs (rep.mono sub) hp

def IsFilled (extents : List Nat) (E : Env F) (v : Value) (p : PVal F) : Prop :=
  E v = some (.tensor ⟨extents, fun _ => p.lower⟩)

theorem filledOutputs_runs {sizes : List Value} {shape : List Int} {extents : List Nat}
    (h : SizesOf E sizes shape extents) {neutral : List Value} {ps : List (PVal F)}
    (hps : List.Forall₂ (fun v p => Represents E v (.prim p)) neutral ps) {elems : List ElemTy}
    (le : elems.length ≤ neutral.length) :
    Emit.Runs W point E (filledOutputs sizes ((tensorTypes shape elems).zip neutral))
      fun E' vs => List.Forall₂ (IsFilled extents E') vs (ps.take elems.length) ∧
        vs.map Value.ty = tensorTypes shape elems := by
  have each : List.Forall₂ (fun (q : MlirTy × Value) (r : PVal F × MlirTy) => ∀ E', E.Sub E' →
      Emit.Runs W point E' (filledOutput sizes q) fun E'' v =>
        IsFilled extents E'' v r.1 ∧ v.ty = r.2) ((tensorTypes shape elems).zip neutral)
      (ps.zip (tensorTypes shape elems)) := by
    unfold tensorTypes
    clear le
    induction elems generalizing neutral ps with
    | nil => cases ps <;> exact .nil
    | cons e elems ih =>
      cases hps with
      | nil => exact .nil
      | @cons v p _ _ hv hvs =>
        refine .cons (fun E' sub => ?_) (ih hvs)
        refine .bind (tensorEmpty_runs (h.mono sub) e) fun empty E₁ sub₁ hempty => ?_
        have value := (hv.mono (sub.trans sub₁)).1
        have seen : [v, empty].mapM E₁ = some [.scalar p.lower,
            .tensor ⟨extents, W.machine.contents (.tensor shape e)⟩] := by
          simp [value, hempty.1]
        exact create1_runs seen rfl
  refine (Emit.Effects.mapM (fun _ _ _ _ sub h => ⟨sub _ _ h.1, h.2⟩) each).weaken
    fun E' ws vs _ h => ⟨h.1, ?_⟩
  have types : elems.length = (tensorTypes shape elems).length := (List.length_map _).symm
  obtain ⟨_, holds⟩ := h
  constructor
  · rw [types, ← List.map_fst_zip_take, List.forall₂_map_right_iff]
    exact holds.imp fun _ _ h => h.1
  · have snd : (ps.zip (tensorTypes shape elems)).map Prod.snd = tensorTypes shape elems :=
      List.map_snd_zip (by rw [← types, ← hps.length_eq]; exact le)
    rw [← snd, ← List.forall₂_eq_eq_eq, List.forall₂_map_left_iff, List.forall₂_map_right_iff]
    exact holds.imp fun _ _ h => h.2

theorem segOpTypes_eq {dims : List (VName × SubExp)} {ret : List Ty} {tys : List MlirTy}
    {shape : List Int} (h : segOpTypes dims ret = .ok tys)
    (hshape : toShapeType (dims.map Prod.snd) = .ok shape) :
    ∃ elems, ret.mapM lowerSegOpBaseType = .ok elems ∧ tys = tensorTypes shape elems := by
  rw [segOpTypes, Except.mapM_eq_ok] at h
  induction h with
  | nil => exact ⟨[], rfl, rfl⟩
  | @cons t ty ret tys ht _ ih =>
    obtain ⟨elems, helems, rfl⟩ := ih
    simp only [Except.bind_eq_ok, Except.pure_eq_ok, hshape] at ht
    obtain ⟨e, he, s, hs, rfl⟩ := ht
    cases hs
    refine ⟨e :: elems, ?_, rfl⟩
    rw [List.mapM_cons, he, helems]
    rfl

section Outer

variable {dims : List (VName × SubExp)} {bounds : List (IntType × Nat)} {ds : IterationSpace}

theorem Spans.take {i : Nat} (spans : Spans E i dims bounds ds) (m : Nat) :
    Spans E i (dims.take m) (bounds.take m) (ds.take m) := by
  induction ds generalizing i dims bounds m with
  | nil =>
    cases dims with
    | nil =>
      cases bounds with
      | nil => cases m <;> exact spans
      | cons b bounds => exact spans.elim
    | cons p dims => cases bounds <;> exact spans.elim
  | cons d ds ih =>
    cases dims with
    | nil => cases bounds <;> exact spans.elim
    | cons p dims =>
      cases bounds with
      | nil => exact spans.elim
      | cons b bounds =>
        cases m with
        | zero => trivial
        | succ m => exact ⟨spans.1, ih spans.2 m⟩

theorem Spans.outer {i : Nat} (spans : Spans E i dims bounds ds) :
    ds.filter (fun d => d.index + 1 ≠ i + ds.length) = ds.take (ds.length - 1) := by
  induction ds generalizing i dims bounds with
  | nil => rfl
  | cons d ds ih =>
    cases dims with
    | nil => cases bounds <;> exact spans.elim
    | cons p dims =>
      cases bounds with
      | nil => exact spans.elim
      | cons b bounds =>
        have rest := ih spans.2
        have index := spans.1.index
        have shift : i + 1 + ds.length = i + (d :: ds).length := by simp; omega
        rw [shift] at rest
        cases ds with
        | nil => simp [index]
        | cons e ds =>
          rw [List.filter_cons_of_pos (by simp [index]), rest]
          rfl

theorem Spans.filter_outer (spans : Spans E 0 dims bounds ds) (some : ds.length ≠ 0) :
    ds.filter (fun d => d.index ≠ ds.length - 1) = ds.take (ds.length - 1) := by
  rw [← spans.outer]
  refine List.filter_congr fun d _ => ?_
  simp only [decide_eq_decide]
  omega

end Outer

section Reads

variable {dims : List (VName × SubExp)} {bounds : List (IntType × Nat)} {ds : IterationSpace}

theorem Spans.names {i : Nat} (spans : Spans E i dims bounds ds) : Names i dims ds := by
  induction ds generalizing i dims bounds with
  | nil =>
    cases dims with
    | nil => rfl
    | cons p dims => cases bounds <;> exact spans.elim
  | cons d ds ih =>
    cases dims with
    | nil => cases bounds <;> exact spans.elim
    | cons p dims =>
      cases bounds with
      | nil => exact spans.elim
      | cons b bounds =>
        exact Names.cons_iff.mpr ⟨⟨spans.1.id, spans.1.index⟩, ih spans.2⟩

end Reads

end FutharkMlir
